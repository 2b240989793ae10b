import LuaView.Program.Decode
import LuaView.Proofs.Json.Members
import LuaView.Proofs.Number.ExactDecimals
import LuaView.Proofs.Program.Laws

/-!
# Programs are read back from their JSON form

Decoding undoes encoding, for every program without infinite floats and NaNs, whatever its names and
texts are and whether or not a source could hold it.  Each alternative is decoded by the tag it is
encoded under, and each of its members by the name it is stored under.  That a finite float comes
back from the numeral it is written as is all that has to be known of the numerals.
-/

namespace LuaView

open Json (variant)

attribute [local simp] Json.get? Json.member?

/-! ## Names and keys -/

/-- A delimiter is found by its key. -/
theorem Delimiter.ofKey?_key (delimiter : Delimiter) :
    Delimiter.ofKey? delimiter.key = some delimiter := by
  cases delimiter <;> rfl

theorem IndexStyle.ofKey?_key (style : IndexStyle) :
    IndexStyle.ofKey? style.key = some style := by
  cases style <;> rfl

/-- A binary operator is found by its key. -/
theorem BinaryOp.ofKey?_key (op : BinaryOp) :
    BinaryOp.ofKey? op.key = some op := by
  cases op <;> decide

/-- A unary operator is found by its key. -/
theorem UnaryOp.ofKey?_key (op : UnaryOp) :
    UnaryOp.ofKey? op.key = some op := by
  cases op <;> decide

theorem Name.ofJson?_toJson (id : Name) :
    Name.ofJson? (Name.toJson id) = some id := by
  simp [Name.toJson, Name.ofJson?, Json.string?]

theorem Name.list?_toJson (ids : List Name) :
    (Json.array (ids.map Name.toJson)).list? Name.ofJson? = some ids := by
  have hdecode : Name.ofJson? ∘ Name.toJson = some := funext Name.ofJson?_toJson
  change (ids.map Name.toJson).mapM Name.ofJson? = some ids
  rw [List.mapM_map, hdecode]
  exact (List.mapM_pure (m := Option)).trans (congrArg some (List.map_id ids))

/-! ## Floats -/

/-- No float of the program is infinite or a NaN. -/
def Law.finiteFloats : Law where
  expr value := ∀ x, value = .float x → x.isFinite = true
  field _ := True
  stmt _ := True
  block _ := True

/-- Every finite float is read back from the numeral that it is written as. -/
def FloatNumerals.AreExact (floats : FloatNumerals) : Prop :=
  ∀ x : Binary64, x.isFinite = true → floats.read? (floats.write x) = some x

/-! ## Expressions and statements -/

section Exact

variable {floats : FloatNumerals}

/-- A block is read back if its statements are. -/
theorem Block.ofJson?_object
    {body : Block}
    (h : (Stmt.listToJson floats body).mapM (Stmt.ofJson? floats) = some body) :
    Block.ofJson? floats (.object [("body", .array (Stmt.listToJson floats body))]) =
      some body := by
  rw [Block.ofJson?]
  simpa using Json.bind_itemsOf? (by simp) h some

/-- No expression is encoded as null, so a missing one can be told from it. -/
theorem Expr.toJson_ne_null
    (floats : FloatNumerals)
    (value : Expr) :
    value.toJson floats ≠ .null := by
  cases value with
  | boolean value => cases value <;> simp [Expr.toJson]
  | _ => simp [Expr.toJson, variant]

/-- No alternative is encoded as null, so a missing one can be told from it. -/
theorem ElseBranch.toJson_ne_null
    (floats : FloatNumerals)
    (orelse : ElseBranch) :
    orelse.toJson floats ≠ .null := by
  rcases orelse with ⟨test, body, none | orelse⟩ | body <;> simp [ElseBranch.toJson, variant]

variable (hexact : floats.AreExact)

include hexact

/-- A number is decoded again if it is not an infinite or undefined float. -/
theorem Number.ofJson?_toJson
    {value : Number}
    (h : ∀ x, value = .float x → x.isFinite = true) :
    Number.ofJson? floats (value.toJson floats) = some value := by
  cases value with
  | int value =>
      have hrange : -2 ^ 63 ≤ value.toInt ∧ value.toInt < 2 ^ 63 :=
        ⟨value.le_toInt, value.toInt_lt⟩
      have hpayload : Json.int64? (.integer value.toInt) = some value :=
        (if_pos hrange).trans (congrArg some value.ofInt_toInt)
      exact congrArg (Option.map Number.int) hpayload
  | float x =>
      have hfinite := h x rfl
      have hpayload : Json.binary64? floats (.decimal (floats.write x)) = some x :=
        hexact x hfinite
      rw [Number.toJson, if_pos hfinite]
      exact congrArg (Option.map Number.float) hpayload

-- only expressions use the hypothesis on their own, and the others through them
set_option linter.unusedSectionVars false in
mutual

/-- An expression with finite floats is decoded again. -/
theorem Expr.ofJson?_toJson :
    ∀ {value : Expr}, value.Obeys .finiteFloats →
      Expr.ofJson? floats (value.toJson floats) = some value
  | .nil, _ => by rw [Expr.toJson, Expr.ofJson?]
  | .boolean true, _ => by rw [Expr.toJson, Expr.ofJson?]
  | .boolean false, _ => by rw [Expr.toJson, Expr.ofJson?]
  | .varargs, _ => by rw [Expr.toJson, Expr.ofJson?]
  | .number value, h => by
      rw [Expr.toJson, variant, Expr.ofJson?]
      have hvalue : Number.ofJson? floats (value.toJson floats) = some value :=
        Number.ofJson?_toJson hexact fun x hx => h x (congrArg Expr.number hx)
      exact congrArg (Option.map Expr.number) hvalue
  | .string text delimiter, _ => by
      rw [Expr.toJson, variant, Expr.ofJson?]
      have htext : Json.string? (.string text) = some text := rfl
      refine (Json.bind_get? (by simp) htext _).trans ?_
      exact Json.bind_string? (by simp) (Delimiter.ofKey?_key delimiter) _
  | .name id, _ => by
      rw [Expr.toJson, variant, Expr.ofJson?]
      exact congrArg (Option.map Expr.name) (Name.ofJson?_toJson id)
  | .table fields, h => by
      rw [Expr.toJson, variant, Expr.ofJson?]
      exact Json.bind_itemsOf? (by simp) (Field.mapM_ofJson?_listToJson h.2) _
  | .function parameters body, h => by
      rw [Expr.toJson, variant, Expr.ofJson?]
      have hbody := Block.ofJson?_object (Stmt.mapM_ofJson?_listToJson h.2.2.2)
      refine (Json.bind_itemsOf? (by simp) (Expr.mapM_ofJson?_listToJson h.2.1) _).trans ?_
      exact Json.bind_part? (by simp) hbody _
  | .index value key style, h => by
      rw [Expr.toJson, variant, Expr.ofJson?]
      refine (Json.bind_part? (by simp) (Expr.ofJson?_toJson h.2.1) _).trans ?_
      refine (Json.bind_part? (by simp) (Expr.ofJson?_toJson h.2.2) _).trans ?_
      exact Json.bind_string? (by simp) (IndexStyle.ofKey?_key style) _
  | .call callee arguments, h => by
      rw [Expr.toJson, variant, Expr.ofJson?]
      refine (Json.bind_part? (by simp) (Expr.ofJson?_toJson h.2.1) _).trans ?_
      exact Json.bind_itemsOf? (by simp) (Expr.mapM_ofJson?_listToJson h.2.2) _
  | .invoke receiver method arguments, h => by
      rw [Expr.toJson, variant, Expr.ofJson?]
      refine (Json.bind_part? (by simp) (Expr.ofJson?_toJson h.2.1) _).trans ?_
      refine (Json.bind_get? (by simp) (Name.ofJson?_toJson method) _).trans ?_
      exact Json.bind_itemsOf? (by simp) (Expr.mapM_ofJson?_listToJson h.2.2) _
  | .binary op left right, h => by
      rw [Expr.toJson, variant, Expr.ofJson?]
      refine (Json.bind_string? (by simp) (BinaryOp.ofKey?_key op) _).trans ?_
      refine (Json.bind_part? (by simp) (Expr.ofJson?_toJson h.2.1) _).trans ?_
      exact Json.bind_part? (by simp) (Expr.ofJson?_toJson h.2.2) _
  | .unary op operand, h => by
      rw [Expr.toJson, variant, Expr.ofJson?]
      refine (Json.bind_string? (by simp) (UnaryOp.ofKey?_key op) _).trans ?_
      exact Json.bind_part? (by simp) (Expr.ofJson?_toJson h.2) _

theorem Expr.mapM_ofJson?_listToJson :
    ∀ {values : List Expr}, Expr.AllObey .finiteFloats values →
      (Expr.listToJson floats values).mapM (Expr.ofJson? floats) = some values
  | [], _ => rfl
  | value :: values, h => by
      rw [Expr.listToJson, List.mapM_cons, Expr.ofJson?_toJson h.1,
        Expr.mapM_ofJson?_listToJson h.2]
      rfl

/-- An entry with finite floats is decoded again. -/
theorem Field.ofJson?_toJson :
    ∀ {field : Field}, field.Obeys .finiteFloats →
      Field.ofJson? floats (field.toJson floats) = some field
  | .mk none value bracketed, h => by
      rw [Field.toJson, Field.ofJson?, Json.optionalPart_eq_none (by simp)]
      have hbracketed : Json.bool? (.bool bracketed) = some bracketed := rfl
      simp only [pure_bind]
      refine (Json.bind_part? (by simp) (Expr.ofJson?_toJson h.2) _).trans ?_
      exact Json.bind_get? (by simp) hbracketed _
  | .mk (some key) value bracketed, h => by
      have hkey := key.toJson_ne_null floats
      rw [Field.toJson, Field.ofJson?, Json.optionalPart_eq_some (by simp) hkey]
      have hbracketed : Json.bool? (.bool bracketed) = some bracketed := rfl
      simp only [Expr.ofJson?_toJson h.2.1, Option.map_some, Option.bind_eq_bind, Option.bind_some]
      refine (Json.bind_part? (by simp) (Expr.ofJson?_toJson h.2.2) _).trans ?_
      exact Json.bind_get? (by simp) hbracketed _

theorem Field.mapM_ofJson?_listToJson :
    ∀ {fields : List Field}, Field.AllObey .finiteFloats fields →
      (Field.listToJson floats fields).mapM (Field.ofJson? floats) = some fields
  | [], _ => rfl
  | field :: fields, h => by
      rw [Field.listToJson, List.mapM_cons, Field.ofJson?_toJson h.1,
        Field.mapM_ofJson?_listToJson h.2]
      rfl

/-- A statement with finite floats is decoded again. -/
theorem Stmt.ofJson?_toJson :
    ∀ {stmt : Stmt}, stmt.Obeys .finiteFloats →
      Stmt.ofJson? floats (stmt.toJson floats) = some stmt
  | .assign targets values, h => by
      rw [Stmt.toJson, variant, Stmt.ofJson?]
      refine (Json.bind_itemsOf? (by simp) (Expr.mapM_ofJson?_listToJson h.2.1) _).trans ?_
      exact Json.bind_itemsOf? (by simp) (Expr.mapM_ofJson?_listToJson h.2.2) _
  | .localAssign targets values, h => by
      rw [Stmt.toJson, variant, Stmt.ofJson?]
      refine (Json.bind_itemsOf? (by simp) (Expr.mapM_ofJson?_listToJson h.2.1) _).trans ?_
      exact Json.bind_itemsOf? (by simp) (Expr.mapM_ofJson?_listToJson h.2.2) _
  | .whileLoop test body, h => by
      rw [Stmt.toJson, variant, Stmt.ofJson?]
      have hbody := Block.ofJson?_object (Stmt.mapM_ofJson?_listToJson h.2.2.2)
      refine (Json.bind_part? (by simp) (Expr.ofJson?_toJson h.2.1) _).trans ?_
      exact Json.bind_part? (by simp) hbody _
  | .doBlock body, h => by
      rw [Stmt.toJson, variant, Stmt.ofJson?]
      exact congrArg (Option.map Stmt.doBlock)
        (Block.ofJson?_object (Stmt.mapM_ofJson?_listToJson h.2.2))
  | .repeatLoop body test, h => by
      rw [Stmt.toJson, variant, Stmt.ofJson?]
      have hbody := Block.ofJson?_object (Stmt.mapM_ofJson?_listToJson h.2.2.1)
      refine (Json.bind_part? (by simp) hbody _).trans ?_
      exact Json.bind_part? (by simp) (Expr.ofJson?_toJson h.2.2.2) _
  | .ifThen test body none, h => by
      rw [Stmt.toJson, variant, Stmt.ofJson?]
      have hbody := Block.ofJson?_object (Stmt.mapM_ofJson?_listToJson h.2.2.2)
      refine (Json.bind_part? (by simp) (Expr.ofJson?_toJson h.2.1) _).trans ?_
      refine (Json.bind_part? (by simp) hbody _).trans ?_
      rw [Json.optionalPart_eq_none (by simp)]
      rfl
  | .ifThen test body (some orelse), h => by
      rw [Stmt.toJson, variant, Stmt.ofJson?]
      have hbody := Block.ofJson?_object (Stmt.mapM_ofJson?_listToJson h.2.2.2.1)
      refine (Json.bind_part? (by simp) (Expr.ofJson?_toJson h.2.1) _).trans ?_
      refine (Json.bind_part? (by simp) hbody _).trans ?_
      rw [Json.optionalPart_eq_some (by simp) (orelse.toJson_ne_null floats)]
      exact congrArg (· >>= _) (ElseBranch.ofJson?_toJson h.2.2.2.2)
  | .label id, _ => by
      rw [Stmt.toJson, variant, Stmt.ofJson?]
      exact congrArg (Option.map Stmt.label) (Name.ofJson?_toJson id)
  | .goto id, _ => by
      rw [Stmt.toJson, variant, Stmt.ofJson?]
      exact congrArg (Option.map Stmt.goto) (Name.ofJson?_toJson id)
  | .breakLoop, _ => by rw [Stmt.toJson, Stmt.ofJson?]
  | .returnValues values, h => by
      rw [Stmt.toJson, variant, Stmt.ofJson?]
      exact Json.bind_items? (Expr.mapM_ofJson?_listToJson h.2) _
  | .numericFor counter start stop step body, h => by
      rw [Stmt.toJson, variant, Stmt.ofJson?]
      have hbody := Block.ofJson?_object (Stmt.mapM_ofJson?_listToJson h.2.2.2.2.2)
      refine (Json.bind_get? (by simp) (Name.ofJson?_toJson counter) _).trans ?_
      refine (Json.bind_part? (by simp) (Expr.ofJson?_toJson h.2.1) _).trans ?_
      refine (Json.bind_part? (by simp) (Expr.ofJson?_toJson h.2.2.1) _).trans ?_
      refine (Json.bind_part? (by simp) (Expr.ofJson?_toJson h.2.2.2.1) _).trans ?_
      exact Json.bind_part? (by simp) hbody _
  | .genericFor names iterators body, h => by
      rw [Stmt.toJson, variant, Stmt.ofJson?]
      have hbody := Block.ofJson?_object (Stmt.mapM_ofJson?_listToJson h.2.2.2)
      refine (Json.bind_get? (by simp) (Name.list?_toJson names) _).trans ?_
      refine (Json.bind_itemsOf? (by simp) (Expr.mapM_ofJson?_listToJson h.2.1) _).trans ?_
      exact Json.bind_part? (by simp) hbody _
  | .function name parameters body, h => by
      rw [Stmt.toJson, variant, Stmt.ofJson?]
      have hbody := Block.ofJson?_object (Stmt.mapM_ofJson?_listToJson h.2.2.2.2)
      refine (Json.bind_part? (by simp) (Expr.ofJson?_toJson h.2.1) _).trans ?_
      refine (Json.bind_itemsOf? (by simp) (Expr.mapM_ofJson?_listToJson h.2.2.1) _).trans ?_
      exact Json.bind_part? (by simp) hbody _
  | .localFunction name parameters body, h => by
      rw [Stmt.toJson, variant, Stmt.ofJson?]
      have hbody := Block.ofJson?_object (Stmt.mapM_ofJson?_listToJson h.2.2.2)
      refine (Json.bind_get? (by simp) (Name.ofJson?_toJson name) _).trans ?_
      refine (Json.bind_itemsOf? (by simp) (Expr.mapM_ofJson?_listToJson h.2.1) _).trans ?_
      exact Json.bind_part? (by simp) hbody _
  | .method receiver name parameters body, h => by
      rw [Stmt.toJson, variant, Stmt.ofJson?]
      have hbody := Block.ofJson?_object (Stmt.mapM_ofJson?_listToJson h.2.2.2.2)
      refine (Json.bind_part? (by simp) (Expr.ofJson?_toJson h.2.1) _).trans ?_
      refine (Json.bind_get? (by simp) (Name.ofJson?_toJson name) _).trans ?_
      refine (Json.bind_itemsOf? (by simp) (Expr.mapM_ofJson?_listToJson h.2.2.1) _).trans ?_
      exact Json.bind_part? (by simp) hbody _
  | .expr value, h => by
      rw [Stmt.toJson, variant, Stmt.ofJson?]
      exact congrArg (Option.map Stmt.expr) (Expr.ofJson?_toJson h.2)
  | .semicolon, _ => by rw [Stmt.toJson, Stmt.ofJson?]

theorem Stmt.mapM_ofJson?_listToJson :
    ∀ {stmts : List Stmt}, Stmt.AllObey .finiteFloats stmts →
      (Stmt.listToJson floats stmts).mapM (Stmt.ofJson? floats) = some stmts
  | [], _ => rfl
  | stmt :: stmts, h => by
      rw [Stmt.listToJson, List.mapM_cons, Stmt.ofJson?_toJson h.1,
        Stmt.mapM_ofJson?_listToJson h.2]
      rfl

/-- An alternative with finite floats is decoded again. -/
theorem ElseBranch.ofJson?_toJson :
    ∀ {orelse : ElseBranch}, orelse.Obeys .finiteFloats →
      ElseBranch.ofJson? floats (orelse.toJson floats) = some orelse
  | .elseIf test body none, h => by
      rw [ElseBranch.toJson, variant, ElseBranch.ofJson?]
      have hbody := Block.ofJson?_object (Stmt.mapM_ofJson?_listToJson h.2.2)
      refine (Json.bind_part? (by simp) (Expr.ofJson?_toJson h.1) _).trans ?_
      refine (Json.bind_part? (by simp) hbody _).trans ?_
      rw [Json.optionalPart_eq_none (by simp)]
      rfl
  | .elseIf test body (some orelse), h => by
      rw [ElseBranch.toJson, variant, ElseBranch.ofJson?]
      have hbody := Block.ofJson?_object (Stmt.mapM_ofJson?_listToJson h.2.2.1)
      refine (Json.bind_part? (by simp) (Expr.ofJson?_toJson h.1) _).trans ?_
      refine (Json.bind_part? (by simp) hbody _).trans ?_
      rw [Json.optionalPart_eq_some (by simp) (orelse.toJson_ne_null floats)]
      exact congrArg (· >>= _) (ElseBranch.ofJson?_toJson h.2.2.2)
  | .final body, h => by
      rw [ElseBranch.toJson, variant, ElseBranch.ofJson?]
      exact congrArg (Option.map ElseBranch.final)
        (Block.ofJson?_object (Stmt.mapM_ofJson?_listToJson h.2))

end

/-! ## Programs -/

/-- A block with finite floats is decoded again. -/
theorem Block.ofJson?_toJson
    {block : Block}
    (h : Block.Obeys .finiteFloats block) :
    Block.ofJson? floats (Block.toJson floats block) = some block :=
  Block.ofJson?_object (Stmt.mapM_ofJson?_listToJson hexact h.2)

theorem Chunk.ofJson?_toJson
    {chunk : Chunk}
    (h : chunk.Obeys .finiteFloats) :
    Chunk.ofJson? floats (chunk.toJson floats) = some chunk :=
  Json.bind_get? (by simp [Chunk.toJson]) (Block.ofJson?_toJson hexact h) _

end Exact

/-- Whatever a program is made of is read back from its JSON form, with all numerals from which the
finite floats are read back. -/
theorem read_back_of_finiteFloats
    (floats : FloatNumerals)
    (hexact : floats.AreExact) :
    (∀ chunk : Chunk, chunk.Obeys .finiteFloats →
      Chunk.ofJson? floats (chunk.toJson floats) = some chunk) ∧
    (∀ block : Block, Block.Obeys .finiteFloats block →
      Block.ofJson? floats (Block.toJson floats block) = some block) ∧
    (∀ stmt : Stmt, stmt.Obeys .finiteFloats →
      Stmt.ofJson? floats (stmt.toJson floats) = some stmt) ∧
    (∀ value : Expr, value.Obeys .finiteFloats →
      Expr.ofJson? floats (value.toJson floats) = some value) ∧
    (∀ field : Field, field.Obeys .finiteFloats →
      Field.ofJson? floats (field.toJson floats) = some field) ∧
    (∀ orelse : ElseBranch, orelse.Obeys .finiteFloats →
      ElseBranch.ofJson? floats (orelse.toJson floats) = some orelse) ∧
    ∀ id : Name, Name.ofJson? (Name.toJson id) = some id :=
  ⟨fun _ => Chunk.ofJson?_toJson hexact, fun _ => Block.ofJson?_toJson hexact,
    fun _ => Stmt.ofJson?_toJson hexact, fun _ => Expr.ofJson?_toJson hexact,
    fun _ => Field.ofJson?_toJson hexact, fun _ => ElseBranch.ofJson?_toJson hexact,
    Name.ofJson?_toJson⟩

/-- A program with a float, the three kinds of entries, and alternatives that hold nothing.  No
source holds it: its last entry has a key that is neither a name nor in brackets. -/
def unwrittenProgram : Chunk :=
  ⟨[.localAssign [.name "t"] [.table [.positional (.float .one),
      .named "k" (.string "]]" .long), .bracketed (.int (-1)) .nil, ⟨some .varargs, .nil, false⟩]],
    .ifThen (.boolean true) [] (some (.elseIf .nil [.breakLoop] (some (.final []))))]⟩

/-- Numerals with all the places that a float has. -/
def FloatNumerals.allPlaces : FloatNumerals where
  write x := String.ofList x.exactText
  read? text :=
    match Number.ofNumeral? text.toList with
    | some (.float x) => some x
    | _ => none

/-- Numerals with all decimal places are exact. -/
theorem FloatNumerals.areExact_allPlaces :
    allPlaces.AreExact := by
  intro x hfinite
  simp only [allPlaces, String.toList_ofList, Binary64.ofNumeral?_exactText hfinite]

/-- A program with a float that its numeral shows with one place. -/
theorem read_back_of_finiteFloats_unwrittenProgram :
    FloatNumerals.allPlaces.AreExact ∧ FloatNumerals.allPlaces.write .one = "1.0" ∧
      unwrittenProgram.Obeys .finiteFloats ∧
      Chunk.ofJson? .allPlaces (unwrittenProgram.toJson .allPlaces) = some unwrittenProgram := by
  have hone : Binary64.one.isFinite = true := by decide
  have hfloats : unwrittenProgram.Obeys .finiteFloats := by
    simp [unwrittenProgram, Chunk.Obeys, Block.Obeys, Stmt.AllObey, Stmt.Obeys, Expr.AllObey,
      Expr.Obeys, Field.AllObey, Field.Obeys, ElseBranch.Obeys, Law.finiteFloats, Field.positional,
      Field.named, Field.bracketed, Expr.float, Expr.int, hone]
  have hexact := FloatNumerals.areExact_allPlaces
  exact ⟨hexact, by decide +kernel, hfloats,
    (read_back_of_finiteFloats .allPlaces hexact).1 unwrittenProgram hfloats⟩

end LuaView
