import TypedErrors.Proofs.Attribute.ByName
import TypedErrors.Proofs.ErrorType.WellFormed

/-! # Entries of types that are built

When a declaration is built no entry of its attributes is left over. Each is one that its place allows, as often as
it allows it, and gives a part of the type (`EntriesRead`). -/

namespace TypedErrors

/-! ### Entries that are read one name after another -/

/-- Nodes under names. -/
abbrev Slots := List (String × List AttrNode)

namespace Slots

/-- The nodes under a name. -/
def under (slots : Slots) (name : String) : List AttrNode := (slots.lookup name).getD []

variable {slots : Slots} {name m : String} {l : List AttrNode}

theorem under_append_self (hnew : slots.lookup name = none) : (slots ++ [(name, l)]).under name = l := by
  rw [under, List.lookup_append, hnew, Option.none_or, List.lookup_cons_self, Option.getD_some]

theorem under_append_of_ne (h : m ≠ name) : (slots ++ [(name, l)]).under m = slots.under m := by
  rw [under, List.lookup_append, List.lookup_cons, beq_false_of_ne h]
  exact congrArg (Option.getD · []) (Option.or_none ..)

theorem under_append_nil (hnew : slots.lookup name = none) : (slots ++ [(name, [])]).under m = slots.under m := by
  by_cases hm : m = name
  · subst hm
    rw [under_append_self hnew, under, hnew, Option.getD_none]
  · exact under_append_of_ne hm

end Slots

namespace Entries

/-- The entries have the nodes of the slots under their names, and there are no others. -/
def Holds (es : Entries) (slots : Slots) : Prop := ∀ name, es.nodes name = slots.under name

/-- Of the entries `es₀`, those in the slots have been read, and the others have not. -/
def ReadTo (es₀ : Entries) (slots : Slots) (es : Entries) : Prop :=
  ∀ name, ∃ left, es₀.nodes name = slots.under name ++ left ∧
    under es.items name = (slots.under name).map (·, true) ++ left.map (·, false)

namespace ReadTo

variable {α : Type} {es₀ es es' : Entries} {slots : Slots} {name : String} {a : Adapter α}

/-- Entries of a name that was not asked for are all unread. -/
theorem new (h : es₀.ReadTo slots es) (hnew : slots.lookup name = none) :
    under es.items name = (es₀.nodes name).map (·, false) := by
  obtain ⟨left, hnodes, hunder⟩ := h name
  have hnil : slots.under name = [] := by rw [Slots.under, hnew, Option.getD_none]
  rw [hnil] at hnodes hunder
  rw [hunder, hnodes]
  rfl

/-- The first nodes of a name are read. -/
theorem read (h : es₀.ReadTo slots es) (hnew : slots.lookup name = none) {l : List AttrNode}
    (left : List AttrNode) (hnodes : es₀.nodes name = l ++ left)
    (hupdate : under es'.items = Function.update (under es.items) name (l.map (·, true) ++ left.map (·, false))) :
    es₀.ReadTo (slots ++ [(name, l)]) es' := by
  intro m
  by_cases hm : m = name
  · subst hm
    rw [Slots.under_append_self hnew, hupdate, Function.update_self]
    exact ⟨left, hnodes, rfl⟩
  · rw [Slots.under_append_of_ne hm, hupdate, Function.update_of_ne hm]
    exact h m

theorem drop (h : es₀.ReadTo (slots ++ [(name, [])]) es) (hnew : slots.lookup name = none) :
    es₀.ReadTo slots es := by
  intro m
  rw [← Slots.under_append_nil hnew]
  exact h m

/-- An optional value is read from the first entry, if there is one. -/
theorem optional (h : es₀.ReadTo slots es) (hnew : slots.lookup name = none) (hgiven : ∀ x, a.isGiven x = true)
    {v : Option α} (hrun : (Extract.optional name a).run es = (.ok v, es')) :
    ∃ o, Option.Rel (fun n x => a.node n = .ok x) o v ∧ es₀.ReadTo (slots ++ [(name, o.toList)]) es' := by
  rcases Extract.optional_run_under name with ⟨hnil, hnone⟩ | ⟨n, b, l, items, hl, hupdate, hsome⟩
  · obtain ⟨hv, rfl⟩ := Prod.mk.inj (hnone.symm.trans hrun)
    obtain rfl := Except.ok.inj hv
    have hnodes : es₀.nodes name = [] := List.map_eq_nil_iff.mp ((h.new hnew).symm.trans hnil)
    refine ⟨none, .none, h.read hnew [] hnodes ?_⟩
    rw [show Option.none.toList.map (·, true) ++ List.map (·, false) [] = under es.items name from hnil.symm]
    exact (Function.update_eq_self ..).symm
  · obtain ⟨hv, rfl⟩ := Prod.mk.inj (hsome.symm.trans hrun)
    obtain ⟨x, hx, rfl⟩ := map_eq_ok.mp hv
    obtain ⟨m, left, hnodes, hfirst, rfl⟩ := List.map_eq_cons_iff.mp ((h.new hnew).symm.trans hl)
    obtain ⟨rfl, -⟩ := Prod.mk.inj hfirst
    rw [if_pos (hgiven x)]
    exact ⟨some m, .some hx, h.read hnew left hnodes hupdate⟩

/-- A required value is read from the first entry. -/
theorem required (h : es₀.ReadTo slots es) (hnew : slots.lookup name = none) (hgiven : ∀ x, a.isGiven x = true)
    {anchor : Option Span} {x : α} (hrun : (Extract.required name a anchor).run es = (.ok x, es')) :
    ∃ n, a.node n = .ok x ∧ es₀.ReadTo (slots ++ [(name, [n])]) es' := by
  obtain ⟨v, es₁, hv, hrun⟩ := Extract.run_bind_eq_ok.mp hrun
  obtain ⟨o, hrel, hread⟩ := h.optional hnew hgiven hv
  cases hrel with
  | none => cases hrun
  | some hx =>
    cases hrun
    exact ⟨_, hx, hread⟩

/-- All values of a name are read from all entries. -/
theorem all (h : es₀.ReadTo slots es) (hnew : slots.lookup name = none) {xs : List α}
    (hrun : (Extract.all name a).run es = (.ok xs, es')) :
    ∃ ns lists, List.Forall₂ (fun n l => a.listOf.node n = .ok l) ns lists ∧ xs = lists.flatten ∧
      es₀.ReadTo (slots ++ [(name, ns)]) es' := by
  have hvalues : ((Extract.all name a).run es).1 = .ok xs := congrArg Prod.fst hrun
  have hunread : (under es.items name).map (·.1) = es₀.nodes name := by
    rw [h.new hnew, List.map_map]
    exact List.map_id _
  rw [Extract.all_run_fst, hunread] at hvalues
  obtain ⟨lists, hlists, rfl⟩ := map_eq_ok.mp hvalues
  refine ⟨es₀.nodes name, lists, mapM_eq_ok.mp hlists, rfl, h.read hnew [] (List.append_nil _).symm ?_⟩
  rw [Extract.all_run_under hrun, h.new hnew, List.map_map, List.map_nil, List.append_nil]
  rfl

/-- When nothing is left, the slots are all there is. -/
theorem finish (h : es₀.ReadTo slots es) (hrun : Extract.finish.run es = (.ok (), es')) : es₀.Holds slots := by
  intro name
  obtain ⟨left, hnodes, hunder⟩ := h name
  have hmarked := forall_under_iff.mpr (Extract.finish_run_eq_ok_iff.mp hrun).1 name
  cases left with
  | nil => exact hnodes.trans (List.append_nil _)
  | cons n left =>
    rw [hunder] at hmarked
    cases hmarked (n, false) (by simp)

end ReadTo

theorem unused_of_ofAttribute {ns : String} {b : RawAttribute} {l : List Entry} (h : ofAttribute ns b = .ok l) :
    ∀ e ∈ l, e.isUsed = false := by
  rw [ofAttribute] at h
  split at h
  · obtain ⟨n, -, h⟩ := bind_eq_ok.mp h
    split at h
    · intro e he
      obtain ⟨x, -, hx⟩ := exists_left_of_forall₂ (mapM_eq_ok.mp h) e he
      cases x with
      | literal l => cases hx
      | node m =>
        rw [entryOf] at hx
        split at hx <;> cases hx
        rfl
    · cases h
  · obtain rfl := Except.ok.inj h
    exact List.forall_mem_nil _

/-- Nothing is read of the entries at first. -/
theorem readTo_of_ofAttributes {ns : String} {attrs : List RawAttribute} {es : Entries}
    (h : ofAttributes ns attrs = .ok es) : es.ReadTo [] es := by
  obtain ⟨ls, hls, heq⟩ := bind_eq_ok.mp h
  obtain rfl := Except.ok.inj heq
  refine fun name => ⟨_, rfl, ?_⟩
  show under ls.flatten name = ((ls.flatten.filter (·.name = name)).map (·.node)).map (·, false)
  rw [under, List.map_map]
  refine List.map_congr_left fun e he => ?_
  obtain ⟨l, hl, he⟩ := List.mem_flatten.mp (List.mem_of_mem_filter he)
  obtain ⟨b, -, hb⟩ := exists_left_of_forall₂ (mapM_eq_ok.mp hls) l hl
  rw [unused_of_ofAttribute hb e he]
  rfl

end Entries

/-! ### Places -/

namespace ErrorType
open Entries
variable {s : Settings} {d : Declaration} {t : ErrorType}

/-- What the entries of a field say, and the parts of the field that they give. A field has `include_in_kind` once or
not at all, and only if it is true either `method` or `clone`, once. -/
inductive FieldSays (es : Entries) : Bool → CopyMethod → Prop
  | nothing (h : es.Holds []) : FieldSays es false .copy
  | excluded {n : AttrNode} (h : es.Holds [("include_in_kind", [n])]) (hn : Adapter.flag.node n = .ok false) :
      FieldSays es false .copy
  | included {n : AttrNode} (h : es.Holds [("include_in_kind", [n])]) (hn : Adapter.flag.node n = .ok true) :
      FieldSays es true .copy
  | method {n m : AttrNode} {c : CopyMethod} (h : es.Holds [("include_in_kind", [n]), ("method", [m])])
      (hn : Adapter.flag.node n = .ok true) (hm : Adapter.copyMethod.node m = .ok c) : FieldSays es true c
  | clone {n m : AttrNode} {b : Bool} (h : es.Holds [("include_in_kind", [n]), ("clone", [m])])
      (hn : Adapter.flag.node n = .ok true) (hm : Adapter.flag.node m = .ok b) :
      FieldSays es true (if b then .clone else .copy)

/-- The entry of an alias gives its setting; without one it has the default. -/
inductive SettingRead : Option AttrNode → AliasSetting → Prop
  | absent : SettingRead none .byDefault
  | given {n : AttrNode} {v : AliasSetting} (h : Adapter.aliasSetting.node n = .ok v) : SettingRead (some n) v

/-- The entries of the three aliases give their settings. -/
structure SettingsRead (error result kind : Option AttrNode) (v : AliasSettings) : Prop where
  error : SettingRead error v.error
  result : SettingRead result v.result
  kind : SettingRead kind v.kind

/-- The entry of a description is bound to the fields, and those of sources give them in order. -/
structure ContextRead (n : AttrNode) (ns : List AttrNode) (access : FieldAccess) (fields : Fields ErrorField)
    (b : BoundDescription) (sources : List SymbolPath) : Prop where
  description : ∃ desc, Adapter.description.node n = .ok desc ∧ desc.bind access fields = .ok b
  sources : ∃ lists, List.Forall₂ (fun n l => Adapter.symbolPath.listOf.node n = .ok l) ns lists ∧
    sources = lists.flatten

/-- All entries of a field are read into it. -/
def FieldRead (ns : String) (f : Field) (g : ErrorField) : Prop :=
  ∃ es, Entries.ofAttributes ns f.attrs = .ok es ∧ FieldSays es g.isIncluded g.method

/-- All entries of a variant and its fields are read into it: a description, and sources. -/
structure VariantRead (ns : String) (v : Variant) (b : ErrorVariant) : Prop where
  fields : Fields.Rel (FieldRead ns) v.fields b.fields
  entries : ∃ es n froms, Entries.ofAttributes ns v.attrs = .ok es ∧
    es.Holds [("description", [n]), ("from", froms)] ∧
    ContextRead n froms .capture b.fields b.description b.sources

/-- All entries of a declaration are read into the type, those of its fields and variants too. -/
inductive EntriesRead (s : Settings) (d : Declaration) (t : ErrorType) : Prop
  | struct {fields : Fields Field} {built : Fields ErrorField} {description : BoundDescription}
      {sources : List SymbolPath} {es : Entries} {n : AttrNode} {froms : List AttrNode}
      {error result kind : Option AttrNode} (hd : d.shape = .struct fields)
      (ht : t.shape = .struct built description sources)
      (hf : Fields.Rel (FieldRead s.attributeNamespace) fields built)
      (hes : Entries.ofAttributes s.attributeNamespace d.attrs = .ok es)
      (hall : es.Holds [("error_type", error.toList), ("result_type", result.toList), ("kind_type", kind.toList),
        ("description", [n]), ("from", froms)])
      (haliases : SettingsRead error result kind t.aliases)
      (hcontext : ContextRead n froms .attribute built description sources)
  | enum {variants : List Variant} {built : List ErrorVariant} {es : Entries} {error result kind : Option AttrNode}
      (hd : d.shape = .enum variants) (ht : t.shape = .enum built)
      (hv : List.Forall₂ (VariantRead s.attributeNamespace) variants built)
      (hes : Entries.ofAttributes s.attributeNamespace d.attrs = .ok es)
      (hall : es.Holds [("error_type", error.toList), ("result_type", result.toList), ("kind_type", kind.toList)])
      (haliases : SettingsRead error result kind t.aliases)

/-! ### Readings -/

/-- A way of duplication is read from an entry of either name, or from none. -/
theorem readMethod_reads {es₀ es es' : Entries} {slots : Slots} {c : CopyMethod} (h : es₀.ReadTo slots es)
    (hmethod : slots.lookup "method" = none) (hclone : slots.lookup "clone" = none)
    (hrun : readMethod.run es = (.ok c, es')) :
    (c = .copy ∧ es₀.ReadTo slots es') ∨
    (∃ n, Adapter.copyMethod.node n = .ok c ∧ es₀.ReadTo (slots ++ [("method", [n])]) es') ∨
    ∃ n b, Adapter.flag.node n = .ok b ∧ c = (if b then .clone else .copy) ∧
      es₀.ReadTo (slots ++ [("clone", [n])]) es' := by
  obtain ⟨m, es₁, hm, hrun⟩ := Extract.run_bind_eq_ok.mp hrun
  obtain ⟨_, hrel, hread⟩ := h.optional hmethod (fun _ => rfl) hm
  cases hrel with
  | some hn =>
    cases hrun
    exact .inr (.inl ⟨_, hn, hread⟩)
  | none =>
    -- `clone` is asked for only now, so next to a `method` it is left over
    obtain ⟨b, es₂, hb, hrun⟩ := Extract.run_bind_eq_ok.mp hrun
    obtain ⟨_, hrel, hread⟩ := (hread.drop hmethod).optional hclone (fun _ => rfl) hb
    cases hrel with
    | none =>
      cases hrun
      exact .inl ⟨rfl, hread.drop hclone⟩
    | @some n b hn =>
      cases b with
      | true =>
        cases hrun
        exact .inr (.inr ⟨n, true, hn, rfl, hread⟩)
      | false =>
        cases hrun
        exact .inr (.inr ⟨n, false, hn, rfl, hread⟩)

theorem fieldRead_of_buildField {f : Field} {g : ErrorField} (h : buildField s f = .ok g) :
    FieldRead s.attributeNamespace f g := by
  obtain ⟨es, es', hes, hrun⟩ := Extract.ofAttributes_eq_ok h
  obtain ⟨included, es₁, hincluded, hrun⟩ := Extract.run_bind_eq_ok.mp hrun
  obtain ⟨_, hrel, hread⟩ := (readTo_of_ofAttributes hes).optional rfl (fun _ => rfl) hincluded
  -- nothing else is read of a field that the kind does not include
  have hexcluded {slots : Slots} (hslots : es.ReadTo slots es₁) (hlast : (do
      Extract.finish
      return ({ type := f.type, isIncluded := false, method := .copy, span := f.span } : ErrorField)).run es₁ =
        (.ok g, es')) : es.Holds slots ∧ g.isIncluded = false ∧ g.method = .copy := by
    obtain ⟨_, es₂, hfinish, hlast⟩ := Extract.run_bind_eq_ok.mp hlast
    cases hlast
    exact ⟨hslots.finish hfinish, rfl, rfl⟩
  refine ⟨es, hes, ?_⟩
  cases hrel with
  | none =>
    obtain ⟨hholds, hnot, hcopy⟩ := hexcluded (hread.drop rfl) hrun
    rw [hnot, hcopy]
    exact .nothing hholds
  | @some n b hn =>
    cases b with
    | false =>
      obtain ⟨hholds, hnot, hcopy⟩ := hexcluded hread hrun
      rw [hnot, hcopy]
      exact .excluded hholds hn
    | true =>
      replace hrun : (readMethod >>= fun c => Extract.finish >>= fun _ =>
        pure { type := f.type, isIncluded := true, method := c, span := f.span }).run es₁ = (.ok g, es') := hrun
      obtain ⟨c, es₂, hc, hrun⟩ := Extract.run_bind_eq_ok.mp hrun
      obtain ⟨_, es₃, hfinish, hrun⟩ := Extract.run_bind_eq_ok.mp hrun
      cases hrun
      rcases readMethod_reads hread rfl rfl hc with ⟨rfl, hread⟩ | ⟨m, hm, hread⟩ | ⟨m, b, hm, rfl, hread⟩
      · exact .included (hread.finish hfinish) hn
      · exact .method (hread.finish hfinish) hn hm
      · exact .clone (hread.finish hfinish) hn hm

theorem buildFields_eq_ok {owner : String} {fs : Fields Field} {gs : Fields ErrorField}
    (h : buildFields s owner fs = .ok gs) : Fields.Rel (fun f g => buildField s f = .ok g) fs gs := by
  apply Fields.mapM_eq_ok.mp
  cases fs with
  | named items =>
    obtain ⟨_, -, hgs⟩ := bind_eq_ok.mp h
    exact hgs
  | unit => exact h
  | unnamed => exact h

theorem readAlias_reads {es₀ es es' : Entries} {slots : Slots} {name : String} {v : AliasSetting}
    (h : es₀.ReadTo slots es) (hnew : slots.lookup name = none) (hrun : (readAlias name).run es = (.ok v, es')) :
    ∃ o, SettingRead o v ∧ es₀.ReadTo (slots ++ [(name, o.toList)]) es' := by
  obtain ⟨o, es₁, ho, hrun⟩ := Extract.run_bind_eq_ok.mp hrun
  cases hrun
  obtain ⟨_, hrel, hread⟩ := h.optional hnew (fun _ => rfl) ho
  cases hrel with
  | none => exact ⟨none, .absent, hread⟩
  | some hn => exact ⟨some _, .given hn, hread⟩

theorem readAliases_reads {es₀ es es' : Entries} {v : AliasSettings} (h : es₀.ReadTo [] es)
    (hrun : readAliases.run es = (.ok v, es')) : ∃ error result kind, SettingsRead error result kind v ∧ es₀.ReadTo
      [("error_type", error.toList), ("result_type", result.toList), ("kind_type", kind.toList)] es' := by
  obtain ⟨v₁, es₁, h₁, hrun⟩ := Extract.run_bind_eq_ok.mp hrun
  obtain ⟨v₂, es₂, h₂, hrun⟩ := Extract.run_bind_eq_ok.mp hrun
  obtain ⟨v₃, es₃, h₃, hrun⟩ := Extract.run_bind_eq_ok.mp hrun
  cases hrun
  obtain ⟨error, herror, hread⟩ := readAlias_reads h rfl h₁
  obtain ⟨result, hresult, hread⟩ := readAlias_reads hread rfl h₂
  obtain ⟨kind, hkind, hread⟩ := readAlias_reads hread rfl h₃
  exact ⟨error, result, kind, ⟨herror, hresult, hkind⟩, hread⟩

/-- When a context is read nothing is left besides what was read before it. -/
theorem readContext_reads {es₀ es es' : Entries} {slots : Slots} {access : FieldAccess} {fields : Fields ErrorField}
    {anchor : Option Span} {b : BoundDescription} {sources : List SymbolPath} (h : es₀.ReadTo slots es)
    (hdescription : slots.lookup "description" = none) (hfrom : slots.lookup "from" = none)
    (hrun : (readContext access fields anchor).run es = (.ok (b, sources), es')) : ∃ n froms,
    ContextRead n froms access fields b sources ∧ es₀.Holds (slots ++ [("description", [n]), ("from", froms)]) := by
  obtain ⟨desc, es₁, hdesc, hrun⟩ := Extract.run_bind_eq_ok.mp hrun
  obtain ⟨bound, es₂, hbound, hrun⟩ := Extract.run_bind_eq_ok.mp hrun
  obtain ⟨paths, es₃, hpaths, hrun⟩ := Extract.run_bind_eq_ok.mp hrun
  obtain ⟨_, es₄, hfinish, hrun⟩ := Extract.run_bind_eq_ok.mp hrun
  cases hrun
  obtain ⟨hbind, rfl⟩ := Prod.mk.inj ((Extract.run_ofExcept _).symm.trans hbound)
  obtain ⟨n, hn, hread⟩ := h.required hdescription (fun _ => rfl) hdesc
  have hnew : (slots ++ [("description", [n])]).lookup "from" = none := by
    rw [List.lookup_append, hfrom]
    rfl
  obtain ⟨froms, lists, hlists, rfl, hread⟩ := hread.all hnew hpaths
  rw [List.append_assoc] at hread
  exact ⟨n, froms, ⟨⟨desc, hn, hbind⟩, lists, hlists, rfl⟩, hread.finish hfinish⟩

theorem variantRead_of_buildVariant {owner : String} {v : Variant} {b : ErrorVariant}
    (h : buildVariant s owner v = .ok b) : VariantRead s.attributeNamespace v b := by
  obtain ⟨fields, hfields, h⟩ := bind_eq_ok.mp h
  obtain ⟨⟨description, sources⟩, hcontext, h⟩ := bind_eq_ok.mp h
  cases h
  obtain ⟨es, es', hes, hrun⟩ := Extract.ofAttributes_eq_ok hcontext
  obtain ⟨n, froms, hread, hall⟩ := readContext_reads (readTo_of_ofAttributes hes) rfl rfl hrun
  exact ⟨(buildFields_eq_ok hfields).imp fun _ _ => fieldRead_of_buildField, es, n, froms, hes, hall, hread⟩

theorem buildShape_of_build (h : build s d = .ok t) : buildShape s d = .ok (t.shape, t.aliases) := by
  obtain ⟨⟨shape, aliases⟩, hshape, h⟩ := bind_eq_ok.mp h
  dsimp only at h
  split at h
  · cases h
  · cases h
    exact hshape

/-- Nothing in the attributes of a declaration that is built goes unread. -/
theorem build_entriesRead (h : build s d = .ok t) : EntriesRead s d t := by
  have hshape := buildShape_of_build h
  rw [buildShape] at hshape
  cases hd : d.shape with
  | struct fields =>
    rw [hd] at hshape
    obtain ⟨built, hbuilt, hattrs⟩ := bind_eq_ok.mp hshape
    obtain ⟨es, es', hes, hrun⟩ := Extract.ofAttributes_eq_ok hattrs
    obtain ⟨aliases, es₁, haliases, hrun⟩ := Extract.run_bind_eq_ok.mp hrun
    obtain ⟨⟨description, sources⟩, es₂, hcontext, hrun⟩ := Extract.run_bind_eq_ok.mp hrun
    obtain ⟨ht, rfl⟩ := Prod.mk.inj (Except.ok.inj (Prod.mk.inj hrun).1)
    obtain ⟨error, result, kind, haliases, hread⟩ := readAliases_reads (readTo_of_ofAttributes hes) haliases
    obtain ⟨n, froms, hcontext, hall⟩ := readContext_reads hread rfl rfl hcontext
    exact .struct hd ht.symm ((buildFields_eq_ok hbuilt).imp fun _ _ => fieldRead_of_buildField) hes hall haliases
      hcontext
  | enum variants =>
    rw [hd] at hshape
    obtain ⟨built, hbuilt, hattrs⟩ := bind_eq_ok.mp hshape
    obtain ⟨es, es', hes, hrun⟩ := Extract.ofAttributes_eq_ok hattrs
    obtain ⟨aliases, es₁, haliases, hrun⟩ := Extract.run_bind_eq_ok.mp hrun
    obtain ⟨_, es₂, hfinish, hrun⟩ := Extract.run_bind_eq_ok.mp hrun
    obtain ⟨ht, rfl⟩ := Prod.mk.inj (Except.ok.inj (Prod.mk.inj hrun).1)
    obtain ⟨error, result, kind, haliases, hread⟩ := readAliases_reads (readTo_of_ofAttributes hes) haliases
    exact .enum hd ht.symm ((buildVariants_eq_ok hbuilt).1.imp fun _ _ => variantRead_of_buildVariant) hes
      (hread.finish hfinish) haliases
  | union fields =>
    rw [hd] at hshape
    cases hshape

theorem convertedEnum_entriesRead : ∃ t, build {} convertedEnum = .ok t ∧ EntriesRead {} convertedEnum t := by
  have h : (build {} convertedEnum).toOption.any (fun _ => true) = true := by decide +kernel
  obtain ⟨t, ht, -⟩ := exists_of_any_toOption h
  exact ⟨t, ht, build_entriesRead ht⟩

end ErrorType
end TypedErrors
