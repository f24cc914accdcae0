import TypedErrors.Proofs.ErrorType.Names
import TypedErrors.Proofs.Text

/-! # Well-formed types

What holds of every type that is built, seen from its declaration: of the fields of each context
(`FieldsBuilt`), of its description (`DescriptionBound`), of the shape, and of the conversions. `WellFormed` is
all of it (`build_wellFormed`). -/

namespace TypedErrors

/-! ### Reading all entries of a name -/

namespace Entries

/-- The nodes of the entries of a name, in order. -/
def nodes (es : Entries) (name : String) : List AttrNode := (es.items.filter (·.name = name)).map (·.node)

theorem takeFirst_nodes {name m : String} {items items' : List Entry} {n : AttrNode}
    (h : takeFirst name items = some (n, items')) :
    (items'.filter (·.name = m)).map (·.node) = (items.filter (·.name = m)).map (·.node) := by
  induction items generalizing items' n with
  | nil => cases h
  | cons e items ih =>
    rw [takeFirst] at h
    split at h
    · obtain ⟨-, rfl⟩ := Prod.mk.inj (Option.some.inj h)
      rw [List.filter_cons, List.filter_cons]
      dsimp only
      split <;> rfl
    · obtain ⟨⟨n', items₁⟩, hrest, heq⟩ := Option.map_eq_some_iff.mp h
      obtain ⟨-, rfl⟩ := Prod.mk.inj heq
      rw [List.filter_cons, List.filter_cons]
      split
      · rw [List.map_cons, List.map_cons, ih hrest]
      · exact ih hrest

theorem takeEach_eq_ok {α : Type} {name : String} {read : AttrNode → Except Fault (List α)}
    {items items' : List Entry} {xs : List α} (h : takeEach name read items = (.ok xs, items')) :
    ∃ ls, List.Forall₂ (fun n l => read n = .ok l) ((items.filter (·.name = name)).map (·.node)) ls ∧
      xs = ls.flatten := by
  induction items generalizing items' xs with
  | nil =>
    obtain rfl := Except.ok.inj (Prod.mk.inj h).1
    exact ⟨[], .nil, rfl⟩
  | cons e items ih =>
    rw [takeEach] at h
    split at h
    · next hname =>
      split at h
      · cases h
      · next l hread =>
        obtain ⟨hrest, -⟩ := Prod.mk.inj h
        obtain ⟨ys, hys, rfl⟩ := map_eq_ok.mp hrest
        obtain ⟨ls, hls, rfl⟩ := ih (Prod.ext hys rfl)
        refine ⟨l :: ls, ?_, rfl⟩
        rw [List.filter_cons_of_pos (by simpa using hname)]
        exact .cons hread hls
    · next hname =>
      obtain ⟨hrest, -⟩ := Prod.mk.inj h
      rw [List.filter_cons_of_neg (by simpa using hname)]
      exact ih (Prod.ext hrest rfl)

end Entries

namespace Extract
open Entries
variable {α β : Type} {x : Extract α} {f : α → Extract β} {a : Adapter α} {name : String}

/-- An extraction that leaves the entries as they are, up to their marks. -/
def KeepsNodes (x : Extract α) : Prop := ∀ es m, (x.run es).2.nodes m = es.nodes m

theorem KeepsNodes.nodes_eq {es es' : Entries} {r : Except Fault α} (hx : KeepsNodes x)
    (h : x.run es = (r, es')) (m : String) : es'.nodes m = es.nodes m := by
  have hes := hx es m
  rwa [h] at hes

theorem KeepsNodes.pure (v : α) : KeepsNodes (pure v : Extract α) := fun _ _ => rfl

theorem KeepsNodes.bind (hx : KeepsNodes x) (hf : ∀ v, KeepsNodes (f v)) : KeepsNodes (x >>= f) := by
  intro es m
  have hes := hx es m
  rw [run_bind]
  rcases hrun : x.run es with ⟨e | v, es₁⟩
  · rwa [hrun] at hes
  · rw [hrun] at hes
    exact (hf v es₁ m).trans hes

theorem KeepsNodes.optional : KeepsNodes (optional name a) := by
  intro es m
  cases hfirst : takeFirst name es.items with
  | none =>
    rw [optional_run_of_none hfirst]
    rfl
  | some found =>
    rw [optional_run_of_some hfirst]
    exact takeFirst_nodes hfirst

theorem KeepsNodes.required {anchor : Option Span} : KeepsNodes (required name a anchor) := by
  refine KeepsNodes.optional.bind fun v => ?_
  cases v with
  | some v => exact .pure v
  | none => exact fun _ _ => rfl

theorem KeepsNodes.ofExcept (y : Except Fault α) : KeepsNodes (MonadExcept.ofExcept y : Extract α) := by
  intro es m
  rw [run_ofExcept]

/-- All values of a name are read from its entries in order. -/
theorem all_run_eq_ok {es es' : Entries} {xs : List α} (h : (all name a).run es = (.ok xs, es')) :
    ∃ ls, List.Forall₂ (fun n l => a.listOf.node n = .ok l) (es.nodes name) ls ∧ xs = ls.flatten := by
  have hxs : (takeEach name a.listOf.node es.items).1 = .ok xs := (Prod.mk.inj h).1
  exact takeEach_eq_ok (Prod.ext hxs rfl)

end Extract

namespace ErrorType
open Entries
variable {s : Settings} {owner : String} {d : Declaration} {t : ErrorType}

theorem readAlias_keepsNodes {name : String} : Extract.KeepsNodes (readAlias name) :=
  Extract.KeepsNodes.optional.bind fun _ => .pure _

theorem readAliases_keepsNodes : Extract.KeepsNodes readAliases :=
  readAlias_keepsNodes.bind fun _ => readAlias_keepsNodes.bind fun _ => readAlias_keepsNodes.bind fun _ => .pure _

/-! ### Fields -/

/-- A field has the type of its declaration, and is only cloned for the kind. -/
structure FieldBuilt (declared : Field) (built : ErrorField) : Prop where
  type : built.type = declared.type
  span : built.span = declared.span
  method : built.isIncluded = false → built.method = .copy

theorem fieldBuilt_of_buildField {f : Field} {b : ErrorField} (h : buildField s f = .ok b) : FieldBuilt f b := by
  obtain ⟨es, es', -, hrun⟩ := Extract.ofAttributes_eq_ok h
  obtain ⟨included, es₁, -, hrun⟩ := Extract.run_bind_eq_ok.mp hrun
  dsimp only at hrun
  split at hrun
  · next hincluded =>
    obtain ⟨method, es₂, -, hrun⟩ := Extract.run_bind_eq_ok.mp hrun
    obtain ⟨_, es₃, -, hrun⟩ := Extract.run_bind_eq_ok.mp hrun
    obtain rfl := Except.ok.inj (Prod.mk.inj hrun).1
    exact ⟨rfl, rfl, fun hnot => absurd (hincluded.symm.trans hnot) (by decide)⟩
  · obtain ⟨method, es₂, hmethod, hrun⟩ := Extract.run_bind_eq_ok.mp hrun
    obtain rfl := Except.ok.inj (Prod.mk.inj hmethod).1
    obtain ⟨_, es₃, -, hrun⟩ := Extract.run_bind_eq_ok.mp hrun
    obtain rfl := Except.ok.inj (Prod.mk.inj hrun).1
    exact ⟨rfl, rfl, fun _ => rfl⟩

/-- Fields are built one by one; named ones have different names, none of them reserved. -/
structure FieldsBuilt (declared : Fields Field) (built : Fields ErrorField) : Prop where
  each : Fields.Rel FieldBuilt declared built
  nodup : built.names.Nodup
  free : ∀ n ∈ built.names, n ∉ reservedFields

theorem not_reserved_of_checkNames {items : List (String × Field)} (h : checkNames owner items = .ok ()) :
    ∀ n ∈ items.map (·.1), n ∉ reservedFields := by
  intro n hn hreserved
  obtain ⟨p, hp, rfl⟩ := List.mem_map.mp hn
  have hname := forM_eq_ok h p hp
  dsimp only at hname
  rw [if_pos (List.contains_iff_mem.mpr hreserved)] at hname
  split at hname <;> cases hname

theorem fieldsBuilt_of_buildFields {fs : Fields Field} {gs : Fields ErrorField}
    (h : buildFields s owner fs = .ok gs) : FieldsBuilt fs gs := by
  have hfield {f : Field} {b : ErrorField} (h : buildField s f = .ok b) : FieldBuilt f b :=
    fieldBuilt_of_buildField h
  cases fs with
  | unit =>
    obtain rfl := Except.ok.inj h
    exact ⟨.unit, List.nodup_nil, nofun⟩
  | named items =>
    obtain ⟨_, hcheck, hgs⟩ := bind_eq_ok.mp h
    cases Fields.mapM_eq_ok.mp hgs with
    | named hrel =>
      have hnames := map_eq_of_forall₂ hrel fun _ _ h => h.1
      refine ⟨.named (hrel.imp fun _ _ h => ⟨h.1, hfield h.2⟩), ?_, ?_⟩
      · rw [Fields.names, ← hnames]
        exact checkNames_nodup hcheck
      · rw [Fields.names, ← hnames]
        exact not_reserved_of_checkNames hcheck
  | unnamed items =>
    have hgs : (Fields.unnamed items).mapM (buildField s) = .ok gs := h
    cases Fields.mapM_eq_ok.mp hgs with
    | unnamed hrel => exact ⟨.unnamed (hrel.imp fun _ _ h => ⟨h.1, hfield h.2⟩), List.nodup_nil, nofun⟩

/-! ### Contexts -/

/-- A reference of the kind that the shape allows, and the key of the field that it refers to. -/
inductive Refers {α : Type} : Fields α → FieldRef → FieldKey → Prop
  | name {items : List (String × α)} {n : Text} {name : String} {span : Option Span} (hn : n.string? = some name)
      (hmem : name ∈ items.map (·.1)) : Refers (.named items) (.name n span) (.name name)
  | index {items : List (Nat × α)} {i : Nat} {digits : String} {span : Option Span} (hmem : i ∈ items.map (·.1)) :
      Refers (.unnamed items) (.index i digits span) (.index i)

theorem refers_of_key? {α : Type} {fields : Fields α} {ref : FieldRef} {key : FieldKey}
    (h : ref.key? fields = some key) : Refers fields ref key := by
  obtain ⟨hmeans, hmem⟩ := means_of_key? h
  unfold FieldRef.key? at h
  split at h
  · next items n span =>
    obtain ⟨name, hname, rfl⟩ := Option.map_eq_some_iff.mp hmeans
    refine .name hname ?_
    simpa [Fields.entries] using hmem
  · next items i digits span =>
    rw [FieldRef.means] at hmeans
    split at hmeans
    · next hi =>
      obtain rfl := Option.some.inj hmeans
      obtain ⟨j, rfl⟩ := Int.eq_ofNat_of_zero_le hi
      refine .index ?_
      simpa [Fields.entries] using hmem
    · cases hmeans
  · cases h

/-- The description that attributes declare, with an access to the field in place of each reference. -/
structure DescriptionBound (ns : String) (attrs : List RawAttribute) (access : FieldAccess)
    (fields : Fields ErrorField) (b : BoundDescription) : Prop where
  declared : ∃ desc, declaredDescription ns attrs = some desc ∧ b.template = desc.template ∧
    List.Forall₂ (fun ref x => ∃ key, Refers fields ref key ∧ x = access.expr key.attribute) desc.refs b.args
  fits : b.args ≠ [] → Template.validate b.template b.args.length = .ok ()

theorem Describes.bound {ns : String} {attrs : List RawAttribute} {access : FieldAccess}
    {fields : Fields ErrorField} {b : BoundDescription} (h : Describes ns attrs access fields b) :
    DescriptionBound ns attrs access fields b := by
  obtain ⟨desc, hdesc, hbind⟩ := h
  obtain ⟨htemplate, hargs⟩ := accesses_of_bind hbind
  refine ⟨⟨desc, hdesc, htemplate, hargs.imp ?_⟩, fun hne => ?_⟩
  · rintro ref x ⟨key, hkey, rfl⟩
    exact ⟨key, refers_of_key? hkey, rfl⟩
  · cases desc with
    | plain template =>
      obtain rfl := Except.ok.inj hbind
      exact absurd rfl hne
    | format template refs =>
      obtain ⟨ht, hargs, hfits⟩ := bind_format_eq_ok_iff.mp hbind
      rw [ht, ← hargs.length_eq]
      exact hfits

/-- The sources of conversions that attributes declare, in order. -/
def declaredSources (ns : String) (attrs : List RawAttribute) : Option (List SymbolPath) :=
  match Entries.ofAttributes ns attrs with
  | .ok es => ((es.nodes "from").mapM Adapter.symbolPath.listOf.node).toOption.map List.flatten
  | .error _ => none

theorem declaredSources_of_readContext {ns : String} {attrs : List RawAttribute} {access : FieldAccess}
    {fields : Fields ErrorField} {anchor : Option Span} {b : BoundDescription} {sources : List SymbolPath}
    {es es₁ es' : Entries} (hes : Entries.ofAttributes ns attrs = .ok es)
    (hsame : ∀ m, es₁.nodes m = es.nodes m)
    (h : (readContext access fields anchor).run es₁ = (.ok (b, sources), es')) :
    declaredSources ns attrs = some sources := by
  obtain ⟨desc, es₂, hdesc, h⟩ := Extract.run_bind_eq_ok.mp h
  obtain ⟨bound, es₃, hbound, h⟩ := Extract.run_bind_eq_ok.mp h
  obtain ⟨paths, es₄, hall, h⟩ := Extract.run_bind_eq_ok.mp h
  obtain ⟨_, es₅, -, h⟩ := Extract.run_bind_eq_ok.mp h
  cases h
  have hnodes : es₃.nodes "from" = es.nodes "from" := calc
    es₃.nodes "from" = es₂.nodes "from" := (Extract.KeepsNodes.ofExcept _).nodes_eq hbound _
    _ = es₁.nodes "from" := Extract.KeepsNodes.required.nodes_eq hdesc _
    _ = es.nodes "from" := hsame _
  obtain ⟨ls, hls, rfl⟩ := Extract.all_run_eq_ok hall
  rw [hnodes] at hls
  rw [declaredSources, hes]
  show Option.map _ (Except.toOption ((es.nodes "from").mapM _)) = _
  rw [mapM_eq_ok.mpr hls]
  rfl

/-- A context is built from its fields and its attributes. Only one without fields is converted into. -/
structure ContextBuilt (ns : String) (attrs : List RawAttribute) (access : FieldAccess) (declared : Fields Field)
    (built : Fields ErrorField) (description : BoundDescription) (sources : List SymbolPath) : Prop where
  fields : FieldsBuilt declared built
  bound : DescriptionBound ns attrs access built description
  declared_sources : declaredSources ns attrs = some sources
  fieldless : sources ≠ [] → built.size = 0

/-! ### Conversions -/

/-- The conversion of a source into a context. -/
def conversionInto (variant : Option String) (source : SymbolPath) : Conversion :=
  { source, function := conversionName source, variant }

/-- The conversions that a shape asks for, in order. -/
def conversionsOf : ErrorShape → List Conversion
  | .struct _ _ sources => sources.map (conversionInto none)
  | .enum variants => variants.flatMap fun v => v.sources.map (conversionInto (some v.ident))

/-- A conversion makes the struct, or one of the variants, without fields. -/
inductive Target (c : Conversion) : ErrorShape → Prop
  | struct {fields : Fields ErrorField} {description : BoundDescription} {sources : List SymbolPath}
      (hc : c.variant = none) (hs : c.source ∈ sources) (hf : fields.size = 0) :
      Target c (.struct fields description sources)
  | enum {variants : List ErrorVariant} {v : ErrorVariant} (hv : v ∈ variants) (hc : c.variant = some v.ident)
      (hs : c.source ∈ v.sources) (hf : v.fields.size = 0) : Target c (.enum variants)

theorem nodup_of_nameClash? {seen cs : List Conversion} (h : nameClash? seen cs = none) :
    (cs.map (·.function)).Nodup ∧ ∀ c ∈ cs, ∀ p ∈ seen, p.function ≠ c.function := by
  induction cs generalizing seen with
  | nil => exact ⟨List.nodup_nil, nofun⟩
  | cons c cs ih =>
    rw [nameClash?] at h
    split at h
    · cases h
    · next hnone =>
      have hseen : ∀ p ∈ seen, p.function ≠ c.function := by
        intro p hp
        simpa using List.find?_eq_none.mp hnone p hp
      obtain ⟨hnodup, hlater⟩ := ih h
      constructor
      · rw [List.map_cons, List.nodup_cons]
        refine ⟨fun hmem => ?_, hnodup⟩
        obtain ⟨c', hc', heq⟩ := List.mem_map.mp hmem
        exact hlater c' hc' c (List.mem_cons_self ..) heq.symm
      · refine List.forall_mem_cons.mpr ⟨hseen, fun c' hc' p hp => ?_⟩
        exact hlater c' hc' p (List.mem_cons_of_mem _ hp)

theorem bindSources_eq_ok {variant : Option String} {fields : Fields ErrorField} {sources : List SymbolPath}
    {cs : List Conversion} (h : bindSources variant fields sources = (cs, none)) :
    cs = sources.map (conversionInto variant) ∧ (sources ≠ [] → fields.size = 0) ∧
      (cs.map (·.function)).Nodup := by
  cases sources with
  | nil =>
    obtain ⟨rfl, -⟩ := Prod.mk.inj h
    exact ⟨rfl, fun hne => absurd rfl hne, List.nodup_nil⟩
  | cons first rest =>
    rw [bindSources] at h
    split at h
    · next hsize =>
      obtain ⟨rfl, hclash⟩ := Prod.mk.inj h
      exact ⟨rfl, fun _ => hsize, (nodup_of_nameClash? hclash).1⟩
    · cases h

theorem bindVariants_eq_ok {vs : List ErrorVariant} {cs : List Conversion} (h : bindVariants vs = (cs, none)) :
    cs = conversionsOf (.enum vs) ∧ ∀ v ∈ vs, v.sources ≠ [] → v.fields.size = 0 := by
  induction vs generalizing cs with
  | nil =>
    obtain ⟨rfl, -⟩ := Prod.mk.inj h
    exact ⟨rfl, nofun⟩
  | cons v vs ih =>
    rw [bindVariants] at h
    split at h
    · cases h
    · next cs₁ hv =>
      obtain ⟨rfl, hrest⟩ := Prod.mk.inj h
      obtain ⟨hcs, hsize, -⟩ := bindSources_eq_ok hv
      obtain ⟨hlater, hsizes⟩ := ih (Prod.ext rfl hrest)
      refine ⟨?_, List.forall_mem_cons.mpr ⟨hsize, hsizes⟩⟩
      rw [hcs]
      exact congrArg (_ ++ ·) hlater

/-- The conversions of a shape are those that it asks for, with different names, each into a context without
fields. -/
theorem bindConversions_eq_ok {shape : ErrorShape} {cs : List Conversion}
    (h : bindConversions shape = (cs, none)) :
    cs = conversionsOf shape ∧ (cs.map (·.function)).Nodup ∧ ∀ c ∈ cs, Target c shape := by
  cases shape with
  | struct fields description sources =>
    obtain ⟨rfl, hsize, hnodup⟩ := bindSources_eq_ok h
    refine ⟨rfl, hnodup, fun c hc => ?_⟩
    obtain ⟨source, hsource, rfl⟩ := List.mem_map.mp hc
    exact .struct rfl hsource (hsize (List.ne_nil_of_mem hsource))
  | enum variants =>
    rw [bindConversions] at h
    split at h
    · cases h
    · next cs₁ hvariants =>
      obtain ⟨rfl, hclash⟩ := Prod.mk.inj h
      obtain ⟨rfl, hsize⟩ := bindVariants_eq_ok hvariants
      refine ⟨rfl, (nodup_of_nameClash? hclash).1, fun c hc => ?_⟩
      obtain ⟨v, hv, hc⟩ := List.mem_flatMap.mp hc
      obtain ⟨source, hsource, rfl⟩ := List.mem_map.mp hc
      exact .enum hv rfl hsource (hsize v hv (List.ne_nil_of_mem hsource))

/-! ### Types -/

/-- The shape of a type is that of its declaration, and each of its contexts is built from what declares it. -/
inductive ShapeBuilt (s : Settings) (d : Declaration) : ErrorShape → Prop
  | struct {fields : Fields Field} {built : Fields ErrorField} {description : BoundDescription}
      {sources : List SymbolPath} (hd : d.shape = .struct fields)
      (hc : ContextBuilt s.attributeNamespace d.attrs .attribute fields built description sources) :
      ShapeBuilt s d (.struct built description sources)
  | enum {variants : List Variant} {built : List ErrorVariant} (hd : d.shape = .enum variants)
      (hc : List.Forall₂ (fun v b => b.ident = v.ident ∧
        ContextBuilt s.attributeNamespace v.attrs .capture v.fields b.fields b.description b.sources)
        variants built)
      (hnames : (built.map (·.ident)).Nodup) : ShapeBuilt s d (.enum built)

/-- A type is well formed: its contexts are built, and its conversions are the declared ones, each into a
context without fields and with a name of its own. -/
structure WellFormed (s : Settings) (d : Declaration) (t : ErrorType) : Prop where
  ident : t.ident = d.ident
  shape : ShapeBuilt s d t.shape
  conversions : t.conversions = conversionsOf t.shape
  functions : (t.conversions.map (·.function)).Nodup
  targets : ∀ c ∈ t.conversions, Target c t.shape

theorem context_of_buildVariant {v : Variant} {b : ErrorVariant} (h : buildVariant s owner v = .ok b)
    (hsize : b.sources ≠ [] → b.fields.size = 0) :
    ContextBuilt s.attributeNamespace v.attrs .capture v.fields b.fields b.description b.sources := by
  obtain ⟨-, hfields, hdescribes⟩ := buildVariant_eq_ok h
  refine ⟨fieldsBuilt_of_buildFields hfields, hdescribes.bound, ?_, hsize⟩
  unfold buildVariant at h
  obtain ⟨fields, -, h⟩ := bind_eq_ok.mp h
  obtain ⟨⟨description, sources⟩, hcontext, h⟩ := bind_eq_ok.mp h
  obtain rfl := Except.ok.inj h
  obtain ⟨es, es', hes, hrun⟩ := Extract.ofAttributes_eq_ok hcontext
  exact declaredSources_of_readContext hes (fun _ => rfl) hrun

theorem sources_of_struct {fields : Fields Field} {built : Fields ErrorField} {description : BoundDescription}
    {sources : List SymbolPath} (h : build s d = .ok t) (hd : d.shape = .struct fields)
    (ht : t.shape = .struct built description sources) :
    declaredSources s.attributeNamespace d.attrs = some sources := by
  obtain ⟨aliases, hshape, -⟩ := build_eq_ok h
  rw [buildShape, hd, ht] at hshape
  obtain ⟨built', -, hattrs⟩ := bind_eq_ok.mp hshape
  obtain ⟨es, es', hes, hrun⟩ := Extract.ofAttributes_eq_ok hattrs
  obtain ⟨read, es₁, hread, hrun⟩ := Extract.run_bind_eq_ok.mp hrun
  obtain ⟨⟨description', sources'⟩, es₂, hcontext, hrun⟩ := Extract.run_bind_eq_ok.mp hrun
  cases hrun
  exact declaredSources_of_readContext hes (readAliases_keepsNodes.nodes_eq hread) hcontext

theorem shapeBuilt_of_build (h : build s d = .ok t) : ShapeBuilt s d t.shape := by
  obtain ⟨-, -, hconversions, -⟩ := build_eq_ok h
  cases build_shaped h with
  | struct hd hf hdesc ht =>
    rw [ht] at hconversions ⊢
    obtain ⟨-, hsize, -⟩ := bindSources_eq_ok hconversions
    exact .struct hd ⟨fieldsBuilt_of_buildFields hf, hdesc.bound, sources_of_struct h hd ht, hsize⟩
  | @enum variants built hd hv hnames ht =>
    rw [ht] at hconversions ⊢
    rw [bindConversions] at hconversions
    split at hconversions
    · cases hconversions
    · next cs hvariants =>
      have hsize := (bindVariants_eq_ok hvariants).2
      have hboth := (List.forall₂_and_left built variants).mpr ⟨hsize, hv.flip⟩
      rw [map_eq_of_forall₂ hv fun _ _ h => (buildVariant_eq_ok h).1.symm] at hnames
      refine .enum hd (hboth.flip.imp ?_) hnames
      rintro v b ⟨hb, hbuilt⟩
      exact ⟨(buildVariant_eq_ok hbuilt).1, context_of_buildVariant hbuilt hb⟩

theorem build_wellFormed (h : build s d = .ok t) : WellFormed s d t := by
  obtain ⟨-, -, hconversions, hident⟩ := build_eq_ok h
  obtain ⟨hdeclared, hfunctions, htargets⟩ := bindConversions_eq_ok hconversions
  exact ⟨hident, shapeBuilt_of_build h, hdeclared, hfunctions, htargets⟩

/-- An enum of a variant that is converted into, and one with two fields and a description of them. -/
def convertedEnum : Declaration :=
  let block (tokens : List AttrToken) : RawAttribute :=
    { tokens := [⟨.name, "faultline", none⟩, ⟨.leftParen, "(", none⟩] ++ tokens ++ [⟨.rightParen, ")", none⟩] }
  let field (n : String) (attrs : List RawAttribute) : String × Field :=
    (n, { name := some n, type := .union (.plain ⟨"int", []⟩) [], attrs })
  let included := block [⟨.name, "include_in_kind", none⟩]
  { ident := "E"
    visibility := .pub
    shape := .enum
      [{ ident := "Io"
         fields := .unit
         attrs := [block [⟨.name, "description", none⟩, ⟨.equal, "=", none⟩, ⟨.string, "\"io\"", none⟩,
           ⟨.comma, ",", none⟩, ⟨.name, "from", none⟩, ⟨.equal, "=", none⟩, ⟨.name, "OSError", none⟩]] },
        { ident := "Code"
          fields := .named [field "code" [included], field "reason" []]
          attrs := [block [⟨.name, "description", none⟩, ⟨.leftParen, "(", none⟩,
            ⟨.string, "\"\x7b1\x7d: \x7b0\x7d\"", none⟩, ⟨.comma, ",", none⟩, ⟨.name, "code", none⟩,
            ⟨.comma, ",", none⟩, ⟨.name, "reason", none⟩, ⟨.rightParen, ")", none⟩]] }] }

theorem convertedEnum_wellFormed : ∃ t, build {} convertedEnum = .ok t ∧
    t.conversions.map (·.function) = ["from_os_error"] ∧ WellFormed {} convertedEnum t := by
  have h : (build {} convertedEnum).toOption.any (·.conversions.map (·.function) == ["from_os_error"]) = true := by
    decide +kernel
  obtain ⟨t, ht, hfunctions⟩ := exists_of_any_toOption h
  exact ⟨t, ht, by simpa using hfunctions, build_wellFormed ht⟩

end ErrorType
end TypedErrors
