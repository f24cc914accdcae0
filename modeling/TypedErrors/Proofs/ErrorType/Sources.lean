import TypedErrors.Proofs.ErrorType.WellFormed
import TypedErrors.Proofs.Execution.Key
import TypedErrors.Proofs.Source.Scanned

/-! # Sources of conversions

The parts of a path are names, be it written in a block that was scanned (`AttrParse.NodeOf.named`) or in a string
(`Adapter.named_of_symbolPath`). So the sources of a declaration that was loaded are references of names
(`ErrorType.named_of_build`), each looked up under its first part (`SymbolPath.Named.exists_root`). -/

namespace TypedErrors

open Execution

variable {p : SymbolPath} {ts : List AttrToken} {attrs : List RawAttribute} {ns : String}

theorem undotted_of_isNamePart {name : String} (h : ∀ c ∈ name.toList, Scan.isNamePart c = true) : Undotted name :=
  fun hdot => absurd (h _ hdot) (by decide)

/-- A path with a part, and with no dot in any part. -/
structure SymbolPath.Named (p : SymbolPath) : Prop where
  nonempty : p.parts ≠ []
  undotted : ∀ n ∈ p.parts, Undotted n

theorem SymbolPath.Named.dottedParts_text (h : p.Named) : dottedParts p.text = p.parts :=
  dottedParts_intercalate h.nonempty h.undotted

/-- A source is looked up under its first part. -/
theorem SymbolPath.Named.exists_root (h : p.Named) :
    ∃ root rest, p.parts = root :: rest ∧ (Code.Expr.dotted p.text).names = [root] := by
  obtain ⟨rest, hrest⟩ := exists_dottedParts p.text
  exact ⟨rootName p.text, rest, h.dottedParts_text.symm.trans hrest, names_dotted _⟩

/-! ### Paths of nodes -/

def AttrValue.paths : AttrValue → List SymbolPath
  | .path p => [p]
  | .literal _ => []

mutual

def AttrNode.paths : AttrNode → List SymbolPath
  | .word p _ => [p]
  | .assign p v _ => p :: v.paths
  | .list p args _ => p :: AttrArg.pathsMore args

def AttrArg.pathsMore : List AttrArg → List SymbolPath
  | [] => []
  | a :: more => a.paths ++ AttrArg.pathsMore more

def AttrArg.paths : AttrArg → List SymbolPath
  | .literal _ => []
  | .node n => n.paths

end

theorem AttrArg.pathsMore_eq (as : List AttrArg) : AttrArg.pathsMore as = as.flatMap AttrArg.paths := by
  induction as with
  | nil => rfl
  | cons a as ih => rw [pathsMore, ih, List.flatMap_cons]

namespace AttrParse

theorem Segments.undotted {is : List Ident} (h : Segments ts is) (hts : ∀ t ∈ ts, t.lexeme.Scanned) :
    ∀ i ∈ is, Undotted i.name := by
  induction h with
  | nil => exact List.forall_mem_nil _
  | cons hd ht _ ih =>
    rw [List.forall_mem_cons, List.forall_mem_cons] at hts
    obtain ⟨-, hname, hmore⟩ := hts
    exact List.forall_mem_cons.mpr ⟨undotted_of_isNamePart (hname.name ht), ih hmore⟩

theorem PathOf.named (h : PathOf ts p) (hts : ∀ t ∈ ts, t.lexeme.Scanned) : p.Named := by
  cases h with
  | mk ht h =>
    obtain ⟨hname, hmore⟩ := List.forall_mem_cons.mp hts
    refine ⟨List.cons_ne_nil _ _, List.forall_mem_cons.mpr ⟨undotted_of_isNamePart (hname.name ht), ?_⟩⟩
    exact List.forall_mem_map.mpr (h.undotted hmore)

theorem ValueOf.named {v : AttrValue} (h : ValueOf ts v) (hts : ∀ t ∈ ts, t.lexeme.Scanned) :
    ∀ p ∈ v.paths, p.Named := by
  cases h with
  | literal => exact List.forall_mem_nil _
  | path _ h => exact List.forall_mem_singleton.mpr (h.named hts)

mutual

theorem NodeOf.named {m : AttrNode} : ∀ {ts}, NodeOf ts m → (∀ t ∈ ts, t.lexeme.Scanned) → ∀ p ∈ m.paths, p.Named
  | _, .word hp, hts => List.forall_mem_singleton.mpr (hp.named hts)
  | _, .assign hp _ hv, hts => by
    obtain ⟨hps, hmore⟩ := List.forall_mem_append.mp hts
    exact List.forall_mem_cons.mpr ⟨hp.named hps, hv.named (List.forall_mem_cons.mp hmore).2⟩
  | _, .list hp _ h, hts => by
    obtain ⟨hps, hmore⟩ := List.forall_mem_append.mp hts
    exact List.forall_mem_cons.mpr ⟨hp.named hps, ArgsOf.named h (List.forall_mem_cons.mp hmore).2⟩

theorem ArgsOf.named {as : List AttrArg} {close : Option Span} : ∀ {ts}, ArgsOf ts as close →
    (∀ t ∈ ts, t.lexeme.Scanned) → ∀ p ∈ AttrArg.pathsMore as, p.Named
  | _, .close _, _ => List.forall_mem_nil _
  | _, .last ha _, hts =>
    List.forall_mem_append.mpr ⟨ArgOf.named ha (List.forall_mem_append.mp hts).1, List.forall_mem_nil _⟩
  | _, .cons ha _ h, hts => by
    obtain ⟨hfirst, hmore⟩ := List.forall_mem_append.mp hts
    exact List.forall_mem_append.mpr ⟨ArgOf.named ha hfirst, ArgsOf.named h (List.forall_mem_cons.mp hmore).2⟩

theorem ArgOf.named {a : AttrArg} : ∀ {ts}, ArgOf ts a → (∀ t ∈ ts, t.lexeme.Scanned) → ∀ p ∈ a.paths, p.Named
  | _, .literal _ _, _ => List.forall_mem_nil _
  | _, .node _ h, hts => NodeOf.named h hts

end

end AttrParse

/-! ### Paths of entries -/

namespace Entries

/-- The nodes of entries stand in their blocks. -/
theorem named_of_ofAttribute {a : RawAttribute} {es : List Entry} (h : ofAttribute ns a = .ok es) (ha : a.Scanned) :
    ∀ e ∈ es, ∀ p ∈ e.node.paths, p.Named := by
  have hentry {arg : AttrArg} {e : Entry} (h : entryOf arg = .ok e) : arg = .node e.node := by
    unfold entryOf at h
    split at h
    · cases h
    · split at h
      · obtain rfl := Except.ok.inj h
        rfl
      · cases h
  unfold ofAttribute at h
  split at h
  · obtain ⟨m, hm, h⟩ := bind_eq_ok.mp h
    have hpaths := (parseAttribute_eq_ok_iff.mp hm).named ha
    split at h
    · next path args span =>
      rw [AttrNode.paths, AttrArg.pathsMore_eq] at hpaths
      intro e he p hp
      obtain ⟨arg, harg, hread⟩ := exists_left_of_forall₂ (mapM_eq_ok.mp h) e he
      obtain rfl := hentry hread
      exact hpaths p (List.mem_cons_of_mem _ (List.mem_flatMap.mpr ⟨_, harg, hp⟩))
    · cases h
  · obtain rfl := Except.ok.inj h
    exact List.forall_mem_nil _

theorem named_of_ofAttributes {es : Entries} (h : ofAttributes ns attrs = .ok es) (hattrs : ∀ a ∈ attrs, a.Scanned)
    (name : String) : ∀ m ∈ es.nodes name, ∀ p ∈ m.paths, p.Named := by
  obtain ⟨blocks, hblocks, h⟩ := bind_eq_ok.mp h
  obtain rfl := Except.ok.inj h
  intro m hm
  obtain ⟨e, he, rfl⟩ := List.mem_map.mp hm
  obtain ⟨items, hitems, he⟩ := List.mem_flatten.mp (List.mem_of_mem_filter he)
  obtain ⟨a, ha, hread⟩ := exists_left_of_forall₂ (mapM_eq_ok.mp hblocks) items hitems
  exact named_of_ofAttribute hread (hattrs a ha) e he

end Entries

/-! ### Paths that are read -/

namespace Adapter

theorem undotted_of_ofText? {t : Text} {n : String} (h : Identifier.ofText? t = some n) : Undotted n := fun hdot =>
  absurd (Identifier.isContinue_of_ofText? h _ hdot) (by decide)

theorem splitPath_ne_nil (acc t : Text) : splitPath acc t ≠ [] := by
  fun_induction splitPath acc t with
  | case1 => exact List.cons_ne_nil _ _
  | case2 => exact List.cons_ne_nil _ _
  | case3 => exact List.cons_ne_nil _ _
  | case4 _ _ _ _ _ ih => exact ih

/-- As many identifiers are read as there are parts. -/
theorem undotted_of_mapM {parts : List Text} {names : List String} (h : parts.mapM Identifier.ofText? = some names) :
    names.length = parts.length ∧ ∀ n ∈ names, Undotted n := by
  induction parts generalizing names with
  | nil =>
    obtain rfl := Option.some.inj h
    exact ⟨rfl, List.forall_mem_nil _⟩
  | cons part parts ih =>
    rw [List.mapM_cons] at h
    obtain ⟨n, hn, h⟩ := Option.bind_eq_some_iff.mp h
    obtain ⟨more, hmore, h⟩ := Option.bind_eq_some_iff.mp h
    obtain rfl := Option.some.inj h
    obtain ⟨hlength, hundotted⟩ := ih hmore
    exact ⟨congrArg (· + 1) hlength, List.forall_mem_cons.mpr ⟨undotted_of_ofText? hn, hundotted⟩⟩

theorem anchored_eq_ok {α : Type} {span : Option Span} {x : Except Fault α} {v : α} :
    anchored span x = .ok v ↔ x = .ok v := by
  cases x with
  | error e => exact iff_of_false nofun nofun
  | ok w => exact Iff.rfl

theorem named_of_string {l : TextLiteral} (h : symbolPath.string l = .ok p) : p.Named := by
  simp only [symbolPath] at h
  split at h
  · next names hnames =>
    obtain rfl := Except.ok.inj h
    obtain ⟨hlength, hundotted⟩ := undotted_of_mapM hnames
    have hparts : SymbolPath.parts ⟨names.map fun name => ⟨name, l.span⟩, l.span⟩ = names := by
      simp [SymbolPath.parts, Function.comp_def]
    rw [← hparts] at hlength hundotted
    refine ⟨?_, hundotted⟩
    rw [← List.length_pos_iff, hlength]
    exact List.length_pos_iff.mpr (splitPath_ne_nil _ _)
  · cases h

theorem named_of_literal {l : Literal} (h : symbolPath.literal l = .ok p) : p.Named := by
  have h := anchored_eq_ok.mp h
  cases l with
  | string t => exact named_of_string h
  | _ => cases h

theorem named_of_value {v : AttrValue} (h : symbolPath.value v = .ok p) (hv : ∀ q ∈ v.paths, q.Named) : p.Named := by
  have h := anchored_eq_ok.mp h
  cases v with
  | path q =>
    obtain rfl := Except.ok.inj h
    exact hv _ (List.mem_singleton_self _)
  | literal l => exact named_of_literal h

theorem named_of_arg {a : AttrArg} (h : symbolPath.arg a = .ok p) (ha : ∀ q ∈ a.paths, q.Named) : p.Named := by
  have h := anchored_eq_ok.mp h
  rcases a with l | ⟨q, _⟩ | _ | _
  · exact named_of_literal h
  · obtain rfl := Except.ok.inj h
    exact ha _ (List.mem_singleton_self _)
  · cases h
  · cases h

theorem named_of_symbolPath {n : AttrNode} {ps : List SymbolPath} (h : symbolPath.listOf.node n = .ok ps)
    (hn : ∀ q ∈ n.paths, q.Named) : ∀ p ∈ ps, p.Named := by
  have h := anchored_eq_ok.mp h
  cases n with
  | word =>
    obtain rfl := Except.ok.inj h
    exact List.forall_mem_nil _
  | assign q v =>
    obtain ⟨p, hp, h⟩ := bind_eq_ok.mp h
    obtain rfl := Except.ok.inj h
    exact List.forall_mem_singleton.mpr (named_of_value hp fun q hq => hn q (List.mem_cons_of_mem _ hq))
  | list q args =>
    rw [AttrNode.paths, AttrArg.pathsMore_eq] at hn
    intro p hp
    obtain ⟨a, ha, hread⟩ := exists_left_of_forall₂ (mapM_eq_ok.mp h) p hp
    exact named_of_arg hread fun q hq => hn q (List.mem_cons_of_mem _ (List.mem_flatMap.mpr ⟨a, ha, hq⟩))

end Adapter

/-! ### Sources of a declaration -/

namespace ErrorType

theorem named_of_declaredSources {sources : List SymbolPath} (h : declaredSources ns attrs = some sources)
    (hattrs : ∀ a ∈ attrs, a.Scanned) : ∀ p ∈ sources, p.Named := by
  unfold declaredSources at h
  split at h
  · next es hes =>
    obtain ⟨lists, hlists, rfl⟩ := Option.map_eq_some_iff.mp h
    have hread := mapM_eq_ok.mp (toOption_eq_some_iff.mp hlists)
    intro p hp
    obtain ⟨ps, hps, hp⟩ := List.mem_flatten.mp hp
    obtain ⟨m, hm, hnode⟩ := exists_left_of_forall₂ hread ps hps
    exact Adapter.named_of_symbolPath hnode (Entries.named_of_ofAttributes hes hattrs "from" m hm) p hp
  · cases h

/-- The sources of what is built from a scanned declaration are references of names. -/
theorem named_of_build {s : Settings} {d : Declaration} {t : ErrorType} (h : build s d = .ok t) (hd : d.Scanned) :
    ∀ c ∈ t.conversions, c.source.Named := by
  have hshape := shapeBuilt_of_build h
  obtain ⟨-, -, hconversions, -⟩ := build_eq_ok h
  rw [(bindConversions_eq_ok hconversions).1]
  intro c hc
  generalize t.shape = shape at hshape hc
  cases hshape with
  | struct hshape hbuilt =>
    obtain ⟨p, hp, rfl⟩ := List.mem_map.mp hc
    exact named_of_declaredSources hbuilt.declared_sources hd.attrs p hp
  | enum hshape hbuilt hnames =>
    obtain ⟨b, hb, hc⟩ := List.mem_flatMap.mp hc
    obtain ⟨p, hp, rfl⟩ := List.mem_map.mp hc
    obtain ⟨v, hv, -, hcontext⟩ := exists_left_of_forall₂ hbuilt b hb
    have hmem : v ∈ d.shape.variants := by rwa [hshape]
    exact named_of_declaredSources hcontext.declared_sources (hd.variants v hmem) p hp

end ErrorType
end TypedErrors
