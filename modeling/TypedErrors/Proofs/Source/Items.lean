import TypedErrors.Proofs.Source.Parts
import TypedErrors.Source.Load

/-! # The items of a file

A file is read item by item (`Reached`). Each import and each declaration of a file that is loaded is one of its items
(`items_of_loadSource`). -/

namespace TypedErrors

variable {file source : String} {a b : Lookahead} {f : SourceFile}

/-- In reading the file item by item, `a` is what is ahead between two items. -/
inductive Reached (file source : String) : Lookahead → Prop
  | start {a : Lookahead} (h : Lookahead.fetch .items none (.ofString source) = .ok a) : Reached file source a
  | afterImport {a b : Lookahead} {n : Nat} {i : Import} (ha : Reached file source a)
      (h : Parse.import_ file n a = .ok (i, b)) : Reached file source b
  | afterDeclaration {a b : Lookahead} {n : Nat} {d : Declaration} (ha : Reached file source a)
      (h : Parse.declaration file n a = .ok (d, b)) : Reached file source b

/-- What is ahead between two items is reached by taking tokens. -/
theorem Reached.takes (h : Reached file source a) :
    ∃ start ts, Lookahead.fetch .items none (.ofString source) = .ok start ∧ Takes start ts a := by
  induction h with
  | start h => exact ⟨_, [], h, .nil⟩
  | afterImport _ h ih =>
    obtain ⟨start, ts, hstart, hts⟩ := ih
    obtain ⟨us, hus, -⟩ := Parse.import_reads _ _ _ _ h
    exact ⟨start, ts ++ us, hstart, hts.append hus⟩
  | afterDeclaration _ h ih =>
    obtain ⟨start, ts, hstart, hts⟩ := ih
    obtain ⟨us, hus, -⟩ := Parse.declaration_reads _ _ _ _ h
    exact ⟨start, ts ++ us, hstart, hts.append hus⟩

/-- The import is read between two items. -/
def Import.IsItem (file source : String) (i : Import) : Prop :=
  ∃ a n b, Reached file source a ∧ Parse.import_ file n a = .ok (i, b)

theorem Import.IsItem.isSome_span {i : Import} (h : i.IsItem file source) : i.span.isSome = true := by
  obtain ⟨a, n, b, -, hread⟩ := h
  obtain ⟨ts, -, hspan⟩ := Parse.import_reads n a i b hread
  exact hspan (fun _ => True) fun _ _ => trivial

/-- The declaration is read between two items. -/
def Declaration.IsItem (file source : String) (d : Declaration) : Prop :=
  ∃ a n b, Reached file source a ∧ Parse.declaration file n a = .ok (d, b)

theorem Reached.items : ∀ (n : Nat) {a : Lookahead} {is : List Import} {ds : List Declaration},
    Reached file source a → (∀ i ∈ is, i.IsItem file source) → (∀ d ∈ ds, d.IsItem file source) →
      Parse.items file n is ds a = .ok (f, b) →
      (∀ i ∈ f.imports, i.IsItem file source) ∧ ∀ d ∈ f.declarations, d.IsItem file source
  | 0, _, _, _, _, _, _, h => by cases h
  | n + 1, a, is, ds, ha, his, hds, h => by
    obtain ⟨t?, c, hpeek, hrest⟩ := Parse.bind_eq_ok.mp h
    obtain rfl := Parse.peek_still hpeek
    split at hrest
    · obtain ⟨rfl, -⟩ := Prod.mk.inj (Except.ok.inj hrest)
      exact ⟨fun i hi => his i (List.mem_reverse.mp hi), fun d hd => hds d (List.mem_reverse.mp hd)⟩
    · obtain ⟨i, b, hi, hrest⟩ := Parse.bind_eq_ok.mp hrest
      exact items n (ha.afterImport hi) (List.forall_mem_cons.mpr ⟨⟨c, n, b, ha, hi⟩, his⟩) hds hrest
    · obtain ⟨d, b, hd, hrest⟩ := Parse.bind_eq_ok.mp hrest
      exact items n (ha.afterDeclaration hd) his (List.forall_mem_cons.mpr ⟨⟨c, n, b, ha, hd⟩, hds⟩) hrest

/-- A file that is loaded is read from the start of the source. -/
theorem run_of_loadSource {limits : Limits} (h : loadSource limits file source = .ok f) :
    ∃ a b, Lookahead.fetch .items none (.ofString source) = .ok a ∧
      Parse.items file (source.length + 2) [] [] a = .ok (f, b) := by
  rw [loadSource] at h
  split_ifs at h
  split at h
  · cases h
  · next f' hparse =>
    split_ifs at h
    obtain rfl := Except.ok.inj h
    obtain ⟨a, hfetch, h⟩ := bind_eq_ok.mp hparse
    obtain ⟨⟨f', b⟩, hitems, hf⟩ := bind_eq_ok.mp h
    obtain rfl := Except.ok.inj hf
    exact ⟨a, b, hfetch, hitems⟩

theorem items_of_loadSource {limits : Limits} (h : loadSource limits file source = .ok f) :
    (∀ i ∈ f.imports, i.IsItem file source) ∧ ∀ d ∈ f.declarations, d.IsItem file source := by
  obtain ⟨a, b, hfetch, hitems⟩ := run_of_loadSource h
  exact (Reached.start hfetch).items _ (List.forall_mem_nil _) (List.forall_mem_nil _) hitems

theorem isNamePart_of_loadSource {limits : Limits} (h : loadSource limits file source = .ok f) :
    ∀ i ∈ f.imports, ∀ x ∈ i.path.head.toList, Scan.isNamePart x = true := by
  intro i hi
  obtain ⟨a, n, b, -, hread⟩ := (items_of_loadSource h).1 i hi
  exact Parse.isNamePart_of_import hread

end TypedErrors
