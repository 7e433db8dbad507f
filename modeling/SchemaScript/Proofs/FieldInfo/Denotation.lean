import SchemaScript.FieldInfo.Literal
import SchemaScript.Proofs.FieldInfo.Reading
import SchemaScript.Proofs.Outcome

/-!
# What literals denote

What an expression of a module says, apart from the names that the module has for things.

`Reader.denote?` looks up every name in the module.  In a function a name refers to a declaration,
and denotes its symbol.  A property of a name is a member of an enumeration of the runtime, and
denotes the ordinal of the member.  A number denotes itself, whatever comment follows it, and the
rest of an expression is taken as it is.  An expression denotes nothing if one of its names stands
for nothing, or if it has a property or a misfit that no literal of the library has.

The literal for a value looks up no name, so it denotes the same in every module
(`denote?_ofValue`).
-/

namespace SchemaScript

/-- What an expression says once its names are looked up. -/
inductive Denoted where
  /-- A name that refers to nothing. -/
  | word (name : String)
  /-- A declaration. -/
  | symbol (s : Symbol)
  /-- A number, or a constant of the runtime by its ordinal. -/
  | number (n : Number)
  | text (s : String)
  | bool (b : Bool)
  | arrow (body : Denoted)
  | array (elements : List Denoted) (multiLine : Bool)
  | object (properties : List (String × Denoted)) (multiLine : Bool)

namespace FieldInfo

namespace Reader

variable (R : Reader)

/-- The ordinal of a member of an enumeration of the runtime. -/
def ordinal? (s : Symbol) (name : String) : Option Nat :=
  if s.module = R.runtime then do
    let family ← [Family.repeatType, .scalarType, .longType].find? fun f => f.name = s.name
    let c ← family.members.find? fun c => c.name = name
    return c.ordinal
  else none

mutual

/-- What an expression denotes, in a function or outside of one. -/
def denote? (inFunction : Bool) : Expr → Option Denoted
  | .ident name => if inFunction then (R.symbol? name).map .symbol else some (.word name)
  | .number n _ => some (.number n)
  | .text s => some (.text s)
  | .bool b => some (.bool b)
  | .access (.ident l) name =>
    ((R.symbol? l).bind (R.ordinal? · name)).map fun n : Nat => .number (.int n)
  | .arrow body => (denote? true body).map .arrow
  | .array elements multiLine => (denoteAll? inFunction elements).map (.array · multiLine)
  | .object properties multiLine =>
    (denoteProperties? inFunction properties).map (.object · multiLine)
  | .access _ _ | .misfit _ => none

/-- What expressions in order denote. -/
def denoteAll? (inFunction : Bool) : List Expr → Option (List Denoted)
  | [] => some []
  | e :: rest =>
    (denote? inFunction e).bind fun m => (denoteAll? inFunction rest).map (m :: ·)

/-- What properties in order denote. -/
def denoteProperties? (inFunction : Bool) : Properties → Option (List (String × Denoted))
  | [] => some []
  | (key, e) :: rest =>
    (denote? inFunction e).bind fun m => (denoteProperties? inFunction rest).map ((key, m) :: ·)

end

theorem denoteProperties?_append {R : Reader} {inFunction : Bool} {ps qs : Properties}
    {ms ns : List (String × Denoted)} (hps : R.denoteProperties? inFunction ps = some ms)
    (hqs : R.denoteProperties? inFunction qs = some ns) :
    R.denoteProperties? inFunction (ps ++ qs) = some (ms ++ ns) := by
  induction ps generalizing ms with
  | nil =>
    rw [denoteProperties?] at hps
    cases hps
    exact hqs
  | cons p rest ih =>
    obtain ⟨key, e⟩ := p
    rw [denoteProperties?, Option.bind_eq_some_iff] at hps
    obtain ⟨m, hm, hps⟩ := hps
    obtain ⟨ms, hms, rfl⟩ := Option.map_eq_some_iff.mp hps
    rw [List.cons_append, denoteProperties?, hm, Option.bind_some, ih hms]
    rfl

theorem denoteProperties?_singleton {R : Reader} {inFunction : Bool} {key : String} {e : Expr}
    {m : Denoted} (h : R.denote? inFunction e = some m) :
    R.denoteProperties? inFunction [(key, e)] = some [(key, m)] := by
  rw [denoteProperties?, h]
  rfl

end Reader

/-! ## Literals for values -/

section

open SchemaScript.Expr Outcome

theorem denote?_ofScalar (s : Scalar) :
    ∃ m, ∀ R : Reader, R.denote? false (ofScalar s) = some m := by
  cases s <;> exact ⟨_, fun _ => rfl⟩

mutual

/-- The literal for a value denotes the same to every reader. -/
theorem denote?_ofValue (v : Value) {e : Expr} (h : ofValue v = .ok e) :
    ∃ m, ∀ R : Reader, R.denote? false e = some m := by
  cases v with
  | scalar s =>
    cases h
    exact denote?_ofScalar s
  | list items =>
    obtain ⟨es, hes, rfl⟩ := map_eq_ok_iff.mp h
    obtain ⟨ms, hms⟩ := denoteAll?_ofValues items hes
    exact ⟨_, fun R => by rw [Reader.denote?, hms]; rfl⟩
  | tuple items =>
    obtain ⟨es, hes, rfl⟩ := map_eq_ok_iff.mp h
    obtain ⟨ms, hms⟩ := denoteAll?_ofValues items hes
    exact ⟨_, fun R => by rw [Reader.denote?, hms]; rfl⟩
  | table entries =>
    obtain ⟨ps, hps, rfl⟩ := map_eq_ok_iff.mp h
    obtain ⟨ms, hms⟩ := denoteProperties?_ofEntries entries hps
    exact ⟨_, fun R => by rw [Reader.denote?, hms]; rfl⟩
  | bytes content => cases h
  | set => cases h
  | object => cases h

theorem denoteAll?_ofValues (vs : List Value) {es : List Expr} (h : ofValues vs = .ok es) :
    ∃ ms, ∀ R : Reader, R.denoteAll? false es = some ms := by
  cases vs with
  | nil =>
    cases h
    exact ⟨[], fun _ => rfl⟩
  | cons v rest =>
    simp only [ofValues, bind_eq_ok_iff, pure_eq_ok_iff] at h
    obtain ⟨e, he, es, hes, rfl⟩ := h
    obtain ⟨m, hm⟩ := denote?_ofValue v he
    obtain ⟨ms, hms⟩ := denoteAll?_ofValues rest hes
    exact ⟨m :: ms, fun R => by rw [Reader.denoteAll?, hm, hms]; rfl⟩

theorem denoteProperties?_ofEntries (entries : List (Value × Value)) {ps : Properties}
    (h : ofEntries entries = .ok ps) :
    ∃ ms, ∀ R : Reader, R.denoteProperties? false ps = some ms := by
  cases entries with
  | nil =>
    cases h
    exact ⟨[], fun _ => rfl⟩
  | cons entry rest =>
    obtain ⟨key, v⟩ := entry
    simp only [ofEntries, bind_eq_ok_iff, pure_eq_ok_iff] at h
    obtain ⟨name, -, e, he, ps, hps, rfl⟩ := h
    obtain ⟨m, hm⟩ := denote?_ofValue v he
    obtain ⟨ms, hms⟩ := denoteProperties?_ofEntries rest hps
    exact ⟨(name, m) :: ms, fun R => by rw [Reader.denoteProperties?, hm, hms]; rfl⟩

end

end

end FieldInfo

end SchemaScript
