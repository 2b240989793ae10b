import LuaView.Json.Reader
import LuaView.Program.Decode
import LuaView.Main
import LuaView.Proofs.Markup.Layout
import LuaView.Proofs.Visual.ReadingOrder
import LuaView.Proofs.Markup.Emission
import LuaView.Proofs.Markup.RoundTrip
import LuaView.Proofs.Parsing.Accepted
import LuaView.Proofs.Markup.Grouping
import LuaView.Proofs.Markup.Signs
import LuaView.Proofs.Visual.Forms
import LuaView.Proofs.Markup.Legible
import LuaView.Proofs.Markup.Lossless
import LuaView.Proofs.Parsing.Comparison
import LuaView.Proofs.Parsing.Agreement
import LuaView.Proofs.Parsing.Limit
import LuaView.Proofs.Lexing.Relayout
import LuaView.Proofs.Parsing.LayoutFree
import LuaView.Proofs.Parsing.Budget
import LuaView.Proofs.Parsing.Levels
import LuaView.Proofs.Markup.AddedLevels
import LuaView.Proofs.Visual.Depth
import LuaView.Proofs.Program.JsonForm
import LuaView.Proofs.Lexing.LineBreaks
import LuaView.Proofs.Parsing.StoppingPoint
import LuaView.Proofs.Json.Grammar
import LuaView.Proofs.Json.Writing
import LuaView.Proofs.Visual.JsonForm
import LuaView.Proofs.Parsing.ParsedPrograms
import LuaView.Proofs.Parsing.Precedence
import LuaView.Proofs.Command.Arguments
import LuaView.Proofs.Command.Writing
import LuaView.Proofs.Command.AllOrNothing
import LuaView.Proofs.Lexing.Literals
import LuaView.Proofs.Parsing.Parentheses
import LuaView.Proofs.Number.HexFloats
import LuaView.Proofs.Number.FloatText
import LuaView.Proofs.Lexing.LongestMatch
import LuaView.Proofs.Markup.Skeletons
import LuaView.Proofs.Markup.InlineRuns
import LuaView.Proofs.Visual.Schema
import LuaView.Proofs.Lexing.LongBrackets
import LuaView.Proofs.Lexing.Progress
import LuaView.Proofs.Parsing.Progress
