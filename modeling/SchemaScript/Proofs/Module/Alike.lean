import SchemaScript.Proofs.Related
import SchemaScript.Proofs.Schema.Revised
import SchemaScript.Proofs.Module.Source

/-!
# Modules written alike

What two runs must have in common for their modules to be written alike.

Two edits can be alike in more than one way.  They can be equal, or the one can do what the other
does only if that one succeeds.  An `Edit.Congruence` is such a way: each edit is alike to itself, and
edits in a row are alike if their parts are.

Then messages are written alike if their fields have the same information and literals that are
written alike (`Congruence.writeMessage`).  What comes before the messages depends on the file alone
(`Job.writeModule_eq`), and the place of the file and the references in it do not matter for that
(`Job.opened_revised`).
-/

namespace SchemaScript

namespace Edit

variable {α β γ : Type}

/-- A way in which edits are alike that is kept when edits are put in a row. -/
structure Congruence where
  Alike : {α : Type} → Edit α → Edit α → Prop
  refl : ∀ {α : Type} (e : Edit α), Alike e e
  bind : ∀ {α β : Type} {e e' : Edit α} {k k' : α → Edit β}, Alike e e' →
    (∀ a, Alike (k a) (k' a)) → Alike (e >>= k) (e' >>= k')

/-- Edits are alike if they are equal. -/
def equal : Congruence where
  Alike := Eq
  refl := fun _ => rfl
  bind := fun he hk => by rw [he, funext hk]

/-- Edits are alike if the second does what the first does whenever that one succeeds. -/
def following : Congruence where
  Alike := fun e e' => ∀ d a d', e d = (.ok a, d') → e' d = (.ok a, d')
  refl := fun _ _ _ _ h => h
  bind := fun he hk d b d' h => by
    obtain ⟨a, d₁, ha, hb⟩ := bind_eq_ok_iff.mp h
    exact bind_eq_ok_iff.mpr ⟨a, d₁, he d a d₁ ha, hk a d₁ b d' hb⟩

namespace Congruence

variable (C : Congruence) {as : List α} {bs : List β}

theorem collect {f : α → Edit γ} {f' : β → Edit γ}
    (h : List.Forall₂ (fun a b => C.Alike (f a) (f' b)) as bs) :
    C.Alike (Edit.collect f as) (Edit.collect f' bs) := by
  induction h with
  | nil => exact C.refl _
  | cons hab _ ih => exact C.bind hab fun _ => C.bind ih fun _ => C.refl _

theorem each {f : α → Edit Unit} {f' : β → Edit Unit}
    (h : List.Forall₂ (fun a b => C.Alike (f a) (f' b)) as bs) :
    C.Alike (Edit.each f as) (Edit.each f' bs) := by
  induction h with
  | nil => exact C.refl _
  | cons hab _ ih => exact C.bind hab fun _ => ih

/-- Fields of two runs have the same name and information, and literals that are written alike. -/
structure AlikeField (j j' : Job) (f f' : Field) : Prop where
  fullName : f.fullName = f'.fullName
  info : FieldInfo.ofField j.settings j.schema f = FieldInfo.ofField j'.settings j'.schema f'
  literal : ∀ i, C.Alike (j.fieldLiteral f i) (j'.fieldLiteral f' i)

variable {j j' : Job}

theorem writeMessage (hruntime : j.config.runtime = j'.config.runtime) {m m' : Message}
    (hname : m.fullName = m'.fullName) (hsymbol : m.symbol = m'.symbol)
    (hlocation : m.location = m'.location)
    (hfields : List.Forall₂ (C.AlikeField j j') m.fields m'.fields) :
    C.Alike (j.writeMessage m) (j'.writeMessage m') := by
  unfold Job.writeMessage
  rw [hname, hsymbol, hlocation, hruntime]
  refine C.bind (C.refl _) fun _ => C.bind (C.refl _) fun _ => ?_
  refine C.bind ?_ fun infos => C.bind ?_ fun _ => C.refl _
  · refine C.collect (hfields.imp fun f f' hff' => ?_)
    simp only [hff'.info, optionNotices, hff'.fullName]
    exact C.refl _
  · refine C.collect ((Related.zip_right hfields infos).imp fun p q ⟨hpq, hi⟩ => ?_)
    rw [hi]
    exact hpq.literal q.2

end Congruence

end Edit

/-- Up to the messages, the module for a revised file is the same. -/
theorem Job.opened_revised (v : Revision) (f : File) : opened (f.revised v) = opened f := by
  have henums : (f.revised v).allEnums.flatMap enumLines = f.allEnums.flatMap enumLines := by
    rw [File.allEnums_revised, List.flatMap_map]
    rfl
  rw [opened, opened, henums, File.exportedNames_revised]
  rfl

end SchemaScript
