import TypedErrors.Attribute.Entries
import TypedErrors.Proofs.Attribute.Rendering

/-! # Entries of blocks

A block is chosen by its first token, and once it is read its path says what it is called. The token is no more than the
first segment of the path (`namespace?_of_parseAttribute`), so a block `a.b(...)` has entries among those of `a`
(`ofAttributes_entries`). -/

namespace TypedErrors

open AttrParse

variable {ns : String} {b : RawAttribute} {attrs : List RawAttribute} {m : AttrNode} {p : SymbolPath}

/-- The token by which a block is chosen is the first segment of its path. -/
theorem namespace?_of_parseAttribute (h : parseAttribute b = .ok m) : b.namespace? = m.path.parts.head? := by
  obtain ⟨ts, s⟩ := b
  have hpath : ∃ ps more, PathOf ps m.path ∧ ts = ps ++ more := by
    cases parseAttribute_eq_ok_iff.mp h with
    | word hp => exact ⟨_, [], hp, (List.append_nil _).symm⟩
    | assign hp _ _ => exact ⟨_, _, hp, rfl⟩
    | list hp _ _ => exact ⟨_, _, hp, rfl⟩
  obtain ⟨ps, more, hp, rfl⟩ := hpath
  generalize m.path = p at hp
  cases hp with
  | @mk t ps is ht _ => exact if_pos ht

namespace SymbolPath

def startsWith (p : SymbolPath) (name : String) : Bool := p.parts.head? = some name

theorem startsWith_iff : p.startsWith ns = true ↔ p.parts.head? = some ns := decide_eq_true_iff

theorem startsWith_of_isSingle (h : p.isSingle ns = true) : p.startsWith ns = true := by
  obtain ⟨is, s⟩ := p
  match is with
  | [] => cases h
  | [i] => exact h
  | _ :: _ :: _ => cases h

end SymbolPath

namespace Entries

/-! ### One block -/

/-- The arguments of a block that is a list with such a path; any other block has none. -/
def arguments (accepts : SymbolPath → Bool) (b : RawAttribute) : List AttrArg :=
  match parseAttribute b with
  | .ok (.list p args _) => if accepts p then args else []
  | _ => []

/-- An argument is the node of an entry, under its own name and not yet read. -/
structure EntryFor (x : AttrArg) (e : Entry) : Prop where
  node : x = .node e.node
  name : e.node.path.isSingle e.name = true
  unread : e.isUsed = false

theorem entryFor_of_entryOf {x : AttrArg} {e : Entry} (h : entryOf x = .ok e) : EntryFor x e := by
  cases x with
  | literal l => cases h
  | node m =>
    rw [entryOf] at h
    split at h
    · next i hi =>
      obtain rfl := Except.ok.inj h
      exact ⟨rfl, by simp [SymbolPath.isSingle, hi], rfl⟩
    · cases h

/-- A block that is not refused gives an entry for each of its arguments. -/
theorem entriesFor_of_ofAttribute {es : List Entry} (h : ofAttribute ns b = .ok es) :
    List.Forall₂ EntryFor (arguments (·.startsWith ns) b) es := by
  rw [ofAttribute] at h
  split_ifs at h with hns
  · obtain ⟨m, hm, hlist⟩ := bind_eq_ok.mp h
    rw [namespace?_of_parseAttribute hm] at hns
    cases m with
    | word => cases hlist
    | assign => cases hlist
    | list p args s =>
      have hstarts : p.startsWith ns = true := SymbolPath.startsWith_iff.mpr hns
      simp only [arguments, hm, hstarts, if_true]
      exact (mapM_eq_ok.mp hlist).imp fun _ _ => entryFor_of_entryOf
  · obtain rfl := Except.ok.inj h
    rw [arguments]
    split
    · next p args s hm =>
      rw [namespace?_of_parseAttribute hm] at hns
      have hstarts : ¬ p.startsWith ns = true := SymbolPath.startsWith_iff.not.mpr hns
      rw [if_neg hstarts]
      exact .nil
    · exact .nil

/-- A list with arguments whose path goes on after the name. -/
def Dotted (ns : String) (b : RawAttribute) : Prop :=
  ∃ p args s, parseAttribute b = .ok (.list p args s) ∧ args ≠ [] ∧ p.startsWith ns = true ∧ p.isSingle ns = false

/-- Whether a block is chosen by its whole path or by the start of it makes a difference for dotted ones alone. -/
theorem arguments_cases (ns : String) (b : RawAttribute) :
    arguments (·.isSingle ns) b = arguments (·.startsWith ns) b ∧ ¬ Dotted ns b ∨
      arguments (·.isSingle ns) b = [] ∧ arguments (·.startsWith ns) b ≠ [] ∧ Dotted ns b := by
  by_cases hdotted : Dotted ns b
  · obtain ⟨p, args, s, hm, hargs, hstarts, hsingle⟩ := hdotted
    refine .inr ⟨?_, ?_, p, args, s, hm, hargs, hstarts, hsingle⟩
    · simp [arguments, hm, hsingle]
    · simp [arguments, hm, hstarts, hargs]
  · refine .inl ⟨?_, hdotted⟩
    rw [arguments, arguments]
    split
    · next p args s hm =>
      cases hsingle : p.isSingle ns with
      | true => rw [SymbolPath.startsWith_of_isSingle hsingle]
      | false =>
        cases hstarts : p.startsWith ns with
        | false => rfl
        | true =>
          by_contra hargs
          exact hdotted ⟨p, args, s, hm, Ne.symm hargs, hstarts, hsingle⟩
    · rfl

/-! ### All blocks -/

theorem length_arguments_le (ns : String) (attrs : List RawAttribute) :
    (attrs.flatMap (arguments (·.isSingle ns))).length ≤ (attrs.flatMap (arguments (·.startsWith ns))).length := by
  induction attrs with
  | nil => exact Nat.le_refl 0
  | cons b attrs ih =>
    rw [List.flatMap_cons, List.flatMap_cons, List.length_append, List.length_append]
    rcases arguments_cases ns b with ⟨heq, -⟩ | ⟨hnil, -, -⟩
    · rw [heq]
      exact Nat.add_le_add_left ih _
    · rw [hnil, List.length_nil]
      omega

theorem flatMap_arguments_eq_iff : attrs.flatMap (arguments (·.isSingle ns)) =
    attrs.flatMap (arguments (·.startsWith ns)) ↔ ∀ b ∈ attrs, ¬ Dotted ns b := by
  induction attrs with
  | nil => exact iff_of_true rfl (List.forall_mem_nil _)
  | cons b attrs ih =>
    rw [List.flatMap_cons, List.flatMap_cons, List.forall_mem_cons]
    rcases arguments_cases ns b with ⟨heq, hdotted⟩ | ⟨hnil, hne, hdotted⟩
    · rw [heq, List.append_right_inj, ih, and_iff_right hdotted]
    · refine iff_of_false (fun h => ?_) fun h => h.1 hdotted
      -- the arguments of the dotted block are too many, as no other block has fewer of them by the start of its path
      have hlength := congrArg List.length h
      have hle := length_arguments_le ns attrs
      have hpos := List.length_pos_iff.mpr hne
      rw [hnil, List.nil_append, List.length_append] at hlength
      omega

/-- The entries are the arguments, in order, of the blocks that are lists whose paths start with the name. They are those
of the blocks whose paths are the name alone just when no block is dotted. -/
theorem ofAttributes_entries {es : Entries} (h : ofAttributes ns attrs = .ok es) :
    List.Forall₂ EntryFor (attrs.flatMap (arguments (·.startsWith ns))) es.items ∧
      (List.Forall₂ EntryFor (attrs.flatMap (arguments (·.isSingle ns))) es.items ↔ ∀ b ∈ attrs, ¬ Dotted ns b) := by
  obtain ⟨blocks, hblocks, heq⟩ := bind_eq_ok.mp h
  obtain rfl := Except.ok.inj heq
  have hall : List.Forall₂ EntryFor (attrs.flatMap (arguments (·.startsWith ns))) blocks.flatten := by
    rw [List.flatMap_def]
    refine List.rel_flatten (List.forall₂_map_left_iff.mpr ?_)
    exact (mapM_eq_ok.mp hblocks).imp fun _ _ => entriesFor_of_ofAttribute
  have hnodes {xs : List AttrArg} (hxs : List.Forall₂ EntryFor xs blocks.flatten) :
      xs = blocks.flatten.map fun e => AttrArg.node e.node := by
    rw [← List.map_id xs]
    exact map_eq_of_forall₂ hxs fun _ _ he => he.node
  refine ⟨hall, fun hsingle => ?_, fun hdotted => ?_⟩
  · exact flatMap_arguments_eq_iff.mp ((hnodes hsingle).trans (hnodes hall).symm)
  · rw [flatMap_arguments_eq_iff.mpr hdotted]
    exact hall

/-- The block `a.x(b)`. -/
def dottedBlock : RawAttribute :=
  blockOf [(.name, "a"), (.dot, "."), (.name, "x"), (.leftParen, "("), (.name, "b"), (.rightParen, ")")]

/-- The block `a(c)`. -/
def plainBlock : RawAttribute := blockOf [(.name, "a"), (.leftParen, "("), (.name, "c"), (.rightParen, ")")]

/-- The entries of `a` in `a.x(b)` and `a(c)` are `b` and `c`. -/
theorem ofAttributes_entries_dotted : ∃ es, ofAttributes "a" [dottedBlock, plainBlock] = .ok es ∧
    es.items.map (·.name) = ["b", "c"] ∧
    List.Forall₂ EntryFor ([dottedBlock, plainBlock].flatMap (arguments (·.startsWith "a"))) es.items ∧
    (List.Forall₂ EntryFor ([dottedBlock, plainBlock].flatMap (arguments (·.isSingle "a"))) es.items ↔
      ∀ b ∈ [dottedBlock, plainBlock], ¬ Dotted "a" b) :=
  ⟨_, rfl, rfl, ofAttributes_entries rfl⟩

/-- Not all entries are arguments of blocks whose path is the name alone. -/
theorem dottedBlock_entries : ∃ es, ofAttributes "a" [dottedBlock] = .ok es ∧
    [dottedBlock].flatMap (arguments (·.isSingle "a")) = [] ∧
    ¬ List.Forall₂ EntryFor ([dottedBlock].flatMap (arguments (·.isSingle "a"))) es.items :=
  ⟨_, rfl, rfl, nofun⟩

end Entries
end TypedErrors
