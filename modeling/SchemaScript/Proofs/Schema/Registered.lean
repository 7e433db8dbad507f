import SchemaScript.Proofs.Schema.Declared

/-!
# Names that stay registered

What a registry knows after files were registered whose full names may repeat.

A declaration that is registered anew takes the place of one of its name and sort, so a look-up by a
full name need not find the declaration that one started from.  But it finds one, and whatever a
look-up finds was declared under the name (`Registry.Covers`).
-/

namespace SchemaScript

namespace Schema

/-- A declaration is registered under a name. -/
def RegisteredAs (r : Registry) (name : String) : Declared → Prop
  | .message m => r.messages.get? name = some m
  | .enum e => r.enums.get? name = some e

end Schema

open Schema

namespace Registry

variable {r : Registry} {x y : Declared} {ds : List Declared} {name : String}

/-! ## Registering one declaration -/

theorem registeredAs_add_self (r : Registry) (x : Declared) :
    RegisteredAs (r.add x) x.fullName x := by
  cases x with
  | message m =>
    show (r.messages.put m.fullName m).get? m.fullName = some m
    rw [Table.get?_put, if_pos rfl]
  | enum e =>
    show (r.enums.put e.fullName e).get? e.fullName = some e
    rw [Table.get?_put, if_pos rfl]

/-- What is found after a declaration was registered is that declaration or was found before. -/
theorem registeredAs_of_add (h : RegisteredAs (r.add x) name y) :
    y = x ∧ x.fullName = name ∨ RegisteredAs r name y := by
  cases x with
  | message m =>
    cases y with
    | message n =>
      have hput : (r.messages.put m.fullName m).get? name = some n := h
      rw [Table.get?_put] at hput
      split at hput
      · next hname => cases hput; exact .inl ⟨rfl, hname.symm⟩
      · exact .inr hput
    | enum e => exact .inr h
  | enum e =>
    cases y with
    | message n => exact .inr h
    | enum e' =>
      have hput : (r.enums.put e.fullName e).get? name = some e' := h
      rw [Table.get?_put] at hput
      split at hput
      · next hname => cases hput; exact .inl ⟨rfl, hname.symm⟩
      · exact .inr hput

/-- A name that finds a declaration finds one of its sort after another was registered. -/
theorem exists_registeredAs_add (h : RegisteredAs r name y) (x : Declared) :
    ∃ z, z.isMessage = y.isMessage ∧ RegisteredAs (r.add x) name z := by
  cases x with
  | message m =>
    cases y with
    | message n =>
      by_cases hname : name = m.fullName
      · exact ⟨.message m, rfl, hname ▸ registeredAs_add_self r (.message m)⟩
      · refine ⟨.message n, rfl, ?_⟩
        show (r.messages.put m.fullName m).get? name = some n
        rw [Table.get?_put, if_neg hname]
        exact h
    | enum e => exact ⟨.enum e, rfl, h⟩
  | enum e =>
    cases y with
    | message n => exact ⟨.message n, rfl, h⟩
    | enum e' =>
      by_cases hname : name = e.fullName
      · exact ⟨.enum e, rfl, hname ▸ registeredAs_add_self r (.enum e)⟩
      · refine ⟨.enum e', rfl, ?_⟩
        show (r.enums.put e.fullName e).get? name = some e'
        rw [Table.get?_put, if_neg hname]
        exact h

/-! ## Registering files -/

/-- The full names of the declarations of a list find declarations of their sorts, and nothing is
found but a declaration of the list under its full name. -/
structure Covers (r : Registry) (ds : List Declared) : Prop where
  found : ∀ x ∈ ds, ∃ y, y.isMessage = x.isMessage ∧ RegisteredAs r x.fullName y
  only : ∀ name x, RegisteredAs r name x → x ∈ ds ∧ x.fullName = name

theorem covers_empty : empty.Covers [] := by
  refine ⟨nofun, fun name x hx => ?_⟩
  cases x <;> cases hx

namespace Covers

theorem add (h : r.Covers ds) (x : Declared) : (r.add x).Covers (ds ++ [x]) := by
  constructor
  · intro y hy
    rcases List.mem_append.mp hy with hy | hy
    · obtain ⟨z, hsort, hz⟩ := h.found y hy
      obtain ⟨z', hsort', hz'⟩ := exists_registeredAs_add hz x
      exact ⟨z', hsort'.trans hsort, hz'⟩
    · rw [List.mem_singleton.mp hy]
      exact ⟨x, rfl, registeredAs_add_self r x⟩
  · intro name y hy
    rcases registeredAs_of_add hy with ⟨rfl, hname⟩ | hy
    · exact ⟨List.mem_append_right _ (List.mem_singleton_self _), hname⟩
    · exact ⟨List.mem_append_left _ (h.only name y hy).1, (h.only name y hy).2⟩

theorem addAll (h : r.Covers ds) (xs : List Declared) : (r.addAll xs).Covers (ds ++ xs) := by
  induction xs generalizing r ds with
  | nil => rwa [List.append_nil]
  | cons x rest ih =>
    have hrest := ih (h.add x)
    rwa [List.append_assoc, List.singleton_append] at hrest

/-- The table of files does not count. -/
theorem setFiles (h : r.Covers ds) (files : Table String File) :
    { r with files := files }.Covers ds := by
  constructor
  · intro x hx
    obtain ⟨y, hsort, hy⟩ := h.found x hx
    exact ⟨y, hsort, by cases y <;> exact hy⟩
  · intro name x hx
    exact h.only name x (by cases x <;> exact hx)

theorem addFile (h : r.Covers ds) (f : File) : (r.addFile f).Covers (ds ++ f.declared) := by
  rw [addFile_eq]
  exact (h.setFiles _).addAll f.declared

/-- The names of messages are those that find a message. -/
theorem exists_message_iff (h : r.Covers ds) :
    (∃ m, r.messages.get? name = some m) ↔ ∃ m, .message m ∈ ds ∧ m.fullName = name := by
  constructor
  · rintro ⟨m, hm⟩
    exact ⟨m, h.only name (.message m) hm⟩
  · rintro ⟨m, hm, rfl⟩
    obtain ⟨y, hsort, hy⟩ := h.found (.message m) hm
    cases y with
    | message n => exact ⟨n, hy⟩
    | enum e => cases hsort

/-- The names of enums are those that find an enum. -/
theorem exists_enum_iff (h : r.Covers ds) :
    (∃ e, r.enums.get? name = some e) ↔ ∃ e, .enum e ∈ ds ∧ e.fullName = name := by
  constructor
  · rintro ⟨e, he⟩
    exact ⟨e, h.only name (.enum e) he⟩
  · rintro ⟨e, he, rfl⟩
    obtain ⟨y, hsort, hy⟩ := h.found (.enum e) he
    cases y with
    | message m => cases hsort
    | enum e' => exact ⟨e', hy⟩

end Covers

/-- What is found by the name of a file is a file of that name. -/
theorem mem_of_files_get? {fs : List File} {f : File}
    (h : (ofFiles fs).files.get? name = some f) : f ∈ fs ∧ f.header.name = name := by
  induction fs using List.reverseRecOn with
  | nil => cases h
  | append_singleton fs g ih =>
    rw [ofFiles_concat, addFile_eq, addAll_files, Table.get?_put] at h
    split at h
    · next hname =>
      cases h
      exact ⟨List.mem_append_right _ (List.mem_singleton_self _), hname.symm⟩
    · exact ⟨List.mem_append_left _ (ih h).1, (ih h).2⟩

theorem exists_file_iff {fs : List File} :
    (∃ f, (ofFiles fs).files.get? name = some f) ↔ name ∈ fs.map (·.header.name) := by
  constructor
  · rintro ⟨f, hf⟩
    obtain ⟨hmem, hname⟩ := mem_of_files_get? hf
    exact List.mem_map.mpr ⟨f, hmem, hname⟩
  · intro h
    induction fs using List.reverseRecOn with
    | nil => cases h
    | append_singleton fs g ih =>
      rw [ofFiles_concat, addFile_eq, addAll_files, Table.get?_put]
      split
      · exact ⟨g, rfl⟩
      · next hname =>
        rw [List.map_append, List.mem_append, List.map_singleton, List.mem_singleton] at h
        exact ih (h.resolve_right hname)

theorem covers_ofFiles (fs : List File) : (ofFiles fs).Covers (fs.flatMap File.declared) := by
  induction fs using List.reverseRecOn with
  | nil => exact covers_empty
  | append_singleton fs f ih =>
    rw [ofFiles_concat, List.flatMap_append, List.flatMap_singleton]
    exact ih.addFile f

end Registry

end SchemaScript
