import SchemaScript.Draft.Basic

/-!
# Edits

An edit works on a draft and ends with a result or with an error.  The draft that it leaves behind
is there in both cases: what was written, imported or reserved before the error stays.

The indentation is bracketed.  `Edit.indented` moves it for the edits inside and puts it back as it
was, whether they succeed, fail, or change it themselves.  A move that would make it negative is
refused, and nothing inside is done.
-/

namespace SchemaScript

/-- A change of a draft that has a result or an error. -/
def Edit (α : Type) : Type :=
  Draft → Except Error α × Draft

namespace Edit

variable {α β : Type}

/-- The edit that has a result and changes nothing. -/
protected def pure (a : α) : Edit α :=
  fun d => (.ok a, d)

/-- Two edits in a row.  The second is not done if the first fails. -/
protected def bind (e : Edit α) (next : α → Edit β) : Edit β :=
  fun d =>
    match e d with
    | (.ok a, d) => next a d
    | (.error cause, d) => (.error cause, d)

instance : Monad Edit where
  pure := Edit.pure
  bind := Edit.bind

/-- The edit that fails and changes nothing. -/
def fail (cause : Error) : Edit α :=
  fun d => (.error cause, d)

/-- The edit with a given outcome. -/
def ofExcept (outcome : Except Error α) : Edit α :=
  fun d => (outcome, d)

/-- The edit that changes the draft and always succeeds. -/
def change (f : Draft → Draft) : Edit Unit :=
  fun d => (.ok (), f d)

/-- The edit that has a view of the draft for its result. -/
def view (f : Draft → α) : Edit α :=
  fun d => (.ok (f d), d)

/-! ## Edits of drafts -/

/-- Tells something. -/
def tell (n : Notice) : Edit Unit :=
  change fun d => { d with notices := d.notices ++ [n] }

/-- The name of a symbol in the module. -/
def request (s : Symbol) : Edit String :=
  fun d =>
    let (localName, d) := d.request s
    (.ok localName, d)

/-- Takes a name for a declaration. -/
def reserve (name : String) : Edit Unit :=
  change fun d => d.reserve name

/-- Writes a line. -/
def write (pieces : List Draft.Piece) : Edit Unit :=
  fun d => d.write pieces

/-- Places the import statements. -/
def markImports : Edit Unit :=
  change Draft.markImports

/-- Sets the indentation and has the old one for its result. -/
def setLevel (level : Int) : Edit Nat :=
  fun d =>
    if level < 0 then (.error .negativeIndent, d)
    else (.ok d.level, { d with level := level.toNat })

/-- Does an edit with the indentation moved, and puts the indentation back. -/
def indented (width : Int) (body : Edit α) : Edit α :=
  fun d =>
    let level := (d.level : Int) + width
    if level < 0 then
      (.error .negativeIndent, d)
    else
      let (outcome, after) := body { d with level := level.toNat }
      (outcome, { after with level := d.level })

/-- Does edits in order. -/
def each (f : α → Edit Unit) : List α → Edit Unit
  | [] => pure ()
  | a :: rest => do
    f a
    each f rest

/-- Does edits in order and collects their results. -/
def collect (f : α → Edit β) : List α → Edit (List β)
  | [] => pure []
  | a :: rest => do
    let b ← f a
    let bs ← collect f rest
    return b :: bs

end Edit

end SchemaScript
