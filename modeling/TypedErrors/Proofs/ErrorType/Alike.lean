import TypedErrors.Proofs.Attribute.Agree
import TypedErrors.Proofs.ErrorType.Abort

/-! # Types built from what is alike

Declarations are alike when they differ in nothing but the places and the order of the blocks in which their entries
stand. Then both are refused, with reports that are placed among `P`, or both give the same type but for places
(`build_agrees`). -/

namespace TypedErrors

variable {α β γ δ : Type} {P : Span → Prop} {R : α → β → Prop} {Q : γ → δ → Prop}

theorem Agree.forM {f : α → Except Fault PUnit} {g : β → Except Fault PUnit} {xs : List α} {ys : List β}
    (h : List.Forall₂ (fun a b => Agree P Eq (f a) (g b)) xs ys) : Agree P Eq (xs.forM f) (ys.forM g) := by
  induction h with
  | nil => exact .ok rfl
  | cons hxy _ ih => exact hxy.bind fun _ _ _ => ih

/-! ### Descriptions -/

namespace Fields

variable {fs : Fields α} {gs : Fields β} {k : FieldKey}

theorem Rel.keys (h : Rel R fs gs) : fs.entries.map (·.1) = gs.entries.map (·.1) := by
  cases h with
  | unit => rfl
  | named h =>
    rw [entries, entries, List.map_map, List.map_map]
    exact map_eq_of_forall₂ h fun _ _ hxy => congrArg FieldKey.name hxy.1
  | unnamed h =>
    rw [entries, entries, List.map_map, List.map_map]
    exact map_eq_of_forall₂ h fun _ _ hxy => congrArg FieldKey.index hxy.1

theorem isSome_get?_iff : (fs.get? k).isSome = true ↔ k ∈ fs.entries.map (·.1) := by
  rw [get?, List.lookup_isSome_iff, List.mem_map]
  exact exists_congr fun p => and_congr_right fun _ => beq_iff_eq.trans eq_comm

theorem Rel.isSome_get? (h : Rel R fs gs) (k : FieldKey) : (fs.get? k).isSome = (gs.get? k).isSome := by
  rw [Bool.eq_iff_iff, isSome_get?_iff, isSome_get?_iff, h.keys]

theorem Rel.size (h : Rel R fs gs) : fs.size = gs.size := by
  have hlength := congrArg List.length h.keys
  rwa [List.length_map, List.length_map] at hlength

theorem Rel.mapM {f : α → Except Fault γ} {g : β → Except Fault δ}
    (h : Rel (fun x y => Agree P Q (f x) (g y)) fs gs) : Agree P (Rel Q) (fs.mapM f) (gs.mapM g) := by
  have hvalue {κ : Type} {x : κ × α} {y : κ × β} (h : x.1 = y.1 ∧ Agree P Q (f x.2) (g y.2)) :
      Agree P (fun a b => a.1 = b.1 ∧ Q a.2 b.2) (onValue f x) (onValue g y) :=
    h.2.bind fun _ _ hab => .ok ⟨h.1, hab⟩
  cases h with
  | unit => exact .ok .unit
  | named h => exact (Agree.mapM (h.imp fun _ _ => hvalue)).map fun _ _ => .named
  | unnamed h => exact (Agree.mapM (h.imp fun _ _ => hvalue)).map fun _ _ => .unnamed

end Fields

namespace Description.Alike

variable {fs : Fields α} {gs : Fields β} {r r' : FieldRef} {d d' : Description}

theorem key?_eq (h : Fields.Rel R fs gs) (hr : r.Alike P r') : r.key? fs = r'.key? gs := by
  have hsome := h.isSome_get?
  cases h <;> cases hr <;> simp only [FieldRef.key?, hsome]

theorem resolve_agrees (h : Fields.Rel R fs gs) (hr : r.Alike P r') :
    Agree P Eq (r.resolve fs) (r'.resolve gs) := by
  rw [FieldRef.resolve, FieldRef.resolve, key?_eq h hr]
  split
  · exact .ok rfl
  · cases hr with
    | name hs hs' => exact .refuse rfl rfl hs hs'
    | index hs hs' => exact .refuse rfl rfl hs hs'

theorem placed_misfit (m : Template.Misfit) : m.fault.Placed P := by
  cases m <;> first | exact ⟨.none, rfl⟩ | trivial

theorem bind_agrees {access : FieldAccess} (h : Fields.Rel R fs gs) (hd : d.Alike P d') :
    Agree P Eq (d.bind access fs) (d'.bind access gs) := by
  cases hd with
  | plain ht => exact .ok (congrArg (BoundDescription.mk · []) ht.value)
  | format ht hrefs =>
    have hargs := Agree.mapM (P := P) (Q := Eq) (hrefs.imp fun _ _ hr =>
      (resolve_agrees h hr).bind (f := fun key => pure (access.expr key.attribute))
        (g := fun key => pure (access.expr key.attribute)) fun _ _ hk => .ok (hk ▸ rfl))
    refine hargs.bind fun args args' heq => ?_
    rw [List.forall₂_eq_eq_eq] at heq
    subst heq
    rw [ht.value]
    split
    · exact .ok rfl
    · exact .error ((placed_misfit _).withSpan ht.left) ((placed_misfit _).withSpan ht.right)

end Description.Alike

/-! ### Declarations -/

structure Field.Alike (P : Span → Prop) (ns : String) (f g : Field) : Prop where
  type : f.type = g.type
  attrs : AttrsAlike P ns f.attrs g.attrs
  left : Placed P f.span
  right : Placed P g.span

structure Variant.Alike (P : Span → Prop) (ns : String) (v w : Variant) : Prop where
  ident : v.ident = w.ident
  fields : Fields.Rel (Field.Alike P ns) v.fields w.fields
  attrs : AttrsAlike P ns v.attrs w.attrs
  docs : v.docs = w.docs
  left : Placed P v.span
  right : Placed P w.span

inductive Shape.Alike (P : Span → Prop) (ns : String) : Shape → Shape → Prop
  | struct {fs gs : Fields Field} (h : Fields.Rel (Field.Alike P ns) fs gs) : Alike P ns (.struct fs) (.struct gs)
  | enum {vs ws : List Variant} (h : List.Forall₂ (Variant.Alike P ns) vs ws) : Alike P ns (.enum vs) (.enum ws)
  | union {fs gs : Fields Field} : Alike P ns (.union fs) (.union gs)

structure Declaration.Alike (P : Span → Prop) (ns : String) (d e : Declaration) : Prop where
  ident : d.ident = e.ident
  visibility : d.visibility = e.visibility
  shape : d.shape.Alike P ns e.shape
  attrs : AttrsAlike P ns d.attrs e.attrs
  docs : d.docs = e.docs
  left : Placed P d.span
  right : Placed P e.span

/-! ### Types -/

structure ErrorField.Alike (f g : ErrorField) : Prop where
  type : f.type = g.type
  isIncluded : f.isIncluded = g.isIncluded
  method : f.method = g.method

structure ErrorVariant.Alike (P : Span → Prop) (v w : ErrorVariant) : Prop where
  ident : v.ident = w.ident
  fields : Fields.Rel ErrorField.Alike v.fields w.fields
  description : v.description = w.description
  sources : List.Forall₂ (SymbolPath.Alike P) v.sources w.sources
  docs : v.docs = w.docs

inductive ErrorShape.Alike (P : Span → Prop) : ErrorShape → ErrorShape → Prop
  | struct {fs gs : Fields ErrorField} {description : BoundDescription} {sources sources' : List SymbolPath}
      (hf : Fields.Rel ErrorField.Alike fs gs) (hs : List.Forall₂ (SymbolPath.Alike P) sources sources') :
      Alike P (.struct fs description sources) (.struct gs description sources')
  | enum {vs ws : List ErrorVariant} (h : List.Forall₂ (ErrorVariant.Alike P) vs ws) : Alike P (.enum vs) (.enum ws)

structure Conversion.Alike (P : Span → Prop) (c c' : Conversion) : Prop where
  source : c.source.Alike P c'.source
  function : c.function = c'.function
  variant : c.variant = c'.variant

structure ErrorType.Alike (P : Span → Prop) (t u : ErrorType) : Prop where
  ident : t.ident = u.ident
  visibility : t.visibility = u.visibility
  shape : t.shape.Alike P u.shape
  aliases : t.aliases = u.aliases
  namespaceName : t.namespaceName = u.namespaceName
  namespaceVisibility : t.namespaceVisibility = u.namespaceVisibility
  conversions : List.Forall₂ (Conversion.Alike P) t.conversions u.conversions
  docs : t.docs = u.docs

namespace ErrorType

variable {s : Settings} {owner : String}

/-! ### Fields -/

theorem lookup_placed {ns : String} {xs ys : List (String × Field)} (name : String)
    (h : List.Forall₂ (fun x y => x.1 = y.1 ∧ Field.Alike P ns x.2 y.2) xs ys) :
    Placed P ((xs.lookup name).bind (·.span)) ∧ Placed P ((ys.lookup name).bind (·.span)) := by
  induction h with
  | nil => exact ⟨.none, .none⟩
  | @cons x y xs ys hxy _ ih =>
    obtain ⟨k, f⟩ := x
    obtain ⟨k', g⟩ := y
    obtain ⟨rfl, hfg⟩ := hxy
    rw [List.lookup_cons, List.lookup_cons]
    dsimp only
    cases name == k with
    | true => exact ⟨hfg.left, hfg.right⟩
    | false => exact ih

theorem duplicate_agrees {message : String} {s s' : Option Span} (hs : Placed P s) (hs' : Placed P s') :
    Agree P Eq (duplicate message s) (duplicate message s') :=
  .refuse rfl rfl hs hs'

theorem checkNames_agrees {ns : String} {xs ys : List (String × Field)}
    (h : List.Forall₂ (fun x y => x.1 = y.1 ∧ Field.Alike P ns x.2 y.2) xs ys) :
    Agree P Eq (checkNames owner xs) (checkNames owner ys) := by
  have hnames : xs.map (·.1) = ys.map (·.1) := map_eq_of_forall₂ h fun _ _ hxy => hxy.1
  refine Agree.forM (h.imp fun x y hxy => ?_)
  obtain ⟨hleft, hright⟩ := lookup_placed y.1 h
  dsimp only
  rw [hxy.1, hnames]
  split_ifs
  · exact (duplicate_agrees hleft hright).bind fun _ _ _ => duplicate_agrees hleft hright
  · exact (duplicate_agrees hleft hright).bind fun _ _ _ => .ok rfl
  · exact duplicate_agrees hleft hright
  · exact .ok rfl

theorem readMethod_agrees : Extract.Agrees P Eq readMethod readMethod := by
  refine (Extract.Agrees.optional Adapter.copyMethod_agrees fun _ => rfl).bind fun v w hvw => ?_
  cases hvw with
  | some h =>
    subst h
    exact .pure rfl
  | none =>
    refine (Extract.Agrees.optional Adapter.flag_agrees fun _ => rfl).bind fun v w hvw => ?_
    cases hvw with
    | none => exact .pure rfl
    | some h =>
      subst h
      split <;> exact .pure rfl

theorem buildField_agrees {f g : Field} (h : f.Alike P s.attributeNamespace g) :
    Agree P ErrorField.Alike (buildField s f) (buildField s g) := by
  refine h.attrs.agree ((Extract.Agrees.optional Adapter.flag_agrees fun _ => rfl).bind fun v w hvw => ?_)
  have hlast (b : Bool) (c : CopyMethod) : Extract.Agrees P ErrorField.Alike
      (do Extract.finish; return ({ type := f.type, isIncluded := b, method := c, span := f.span } : ErrorField))
      (do Extract.finish; return ({ type := g.type, isIncluded := b, method := c, span := g.span } : ErrorField)) :=
    Extract.Agrees.finish.bind fun _ _ _ => .pure ⟨h.type, rfl, rfl⟩
  obtain rfl : v = w := by cases hvw with
    | none => rfl
    | some h => rw [h]
  dsimp only
  split
  · refine readMethod_agrees.bind fun c c' hc => ?_
    subst hc
    exact hlast _ c
  · exact hlast _ .copy

theorem buildFields_agrees {fs gs : Fields Field} (h : Fields.Rel (Field.Alike P s.attributeNamespace) fs gs) :
    Agree P (Fields.Rel ErrorField.Alike) (buildFields s owner fs) (buildFields s owner gs) := by
  have hmap : Agree P (Fields.Rel ErrorField.Alike) (fs.mapM (buildField s)) (gs.mapM (buildField s)) :=
    Fields.Rel.mapM (h.imp fun _ _ => buildField_agrees)
  cases h with
  | unit => exact hmap
  | named h => exact (checkNames_agrees h).bind fun _ _ _ => hmap
  | unnamed h => exact hmap

/-! ### Contexts -/

theorem readAlias_agrees {name : String} : Extract.Agrees P Eq (readAlias name) (readAlias name) :=
  (Extract.Agrees.optional Adapter.aliasSetting_agrees fun _ => rfl).bind fun v w hvw => by
    cases hvw with
    | none => exact .pure rfl
    | some h => exact .pure h

theorem readAliases_agrees : Extract.Agrees P Eq readAliases readAliases :=
  readAlias_agrees.bind fun _ _ h => readAlias_agrees.bind fun _ _ h' => readAlias_agrees.bind fun _ _ h'' =>
    .pure (by rw [h, h', h''])

/-- Descriptions are the same, and sources are alike. -/
def ContextAlike (P : Span → Prop) (c c' : BoundDescription × List SymbolPath) : Prop :=
  c.1 = c'.1 ∧ List.Forall₂ (SymbolPath.Alike P) c.2 c'.2

theorem readContext_agrees {access : FieldAccess} {fs gs : Fields ErrorField} {anchor anchor' : Option Span}
    (h : Fields.Rel ErrorField.Alike fs gs) (hs : Placed P anchor) (hs' : Placed P anchor') :
    Extract.Agrees P (ContextAlike P) (readContext access fs anchor) (readContext access gs anchor') := by
  refine (Extract.Agrees.required Adapter.description_agrees (fun _ => rfl) hs hs').bind fun d d' hd => ?_
  refine (Extract.Agrees.ofExcept (hd.bind_agrees h)).bind fun b b' hb => ?_
  refine (Extract.Agrees.all Adapter.symbolPaths_agrees).bind fun paths paths' hpaths => ?_
  exact Extract.Agrees.finish.bind fun _ _ _ => .pure ⟨hb, hpaths⟩

theorem buildVariant_agrees {v w : Variant} (h : v.Alike P s.attributeNamespace w) :
    Agree P (ErrorVariant.Alike P) (buildVariant s owner v) (buildVariant s owner w) := by
  rw [buildVariant, buildVariant, h.ident]
  refine (buildFields_agrees h.fields).bind fun fs gs hfs => ?_
  refine (h.attrs.agree (readContext_agrees hfs h.left h.right)).bind fun c c' hc => ?_
  exact .ok ⟨rfl, hfs, hc.1, hc.2, h.docs⟩

theorem buildVariants_agrees {vs ws : List Variant} (h : List.Forall₂ (Variant.Alike P s.attributeNamespace) vs ws)
    (seen : List String) :
    Agree P (List.Forall₂ (ErrorVariant.Alike P)) (buildVariants s owner seen vs) (buildVariants s owner seen ws) := by
  induction h generalizing seen with
  | nil => exact .ok .nil
  | @cons v w vs ws hvw _ ih =>
    rw [buildVariants, buildVariants, hvw.ident]
    dsimp only
    split_ifs
    · exact (duplicate_agrees hvw.left hvw.right).bind fun _ _ _ => (buildVariant_agrees hvw).bind fun _ _ hb =>
        (ih _).bind fun _ _ hbs => .ok (.cons hb hbs)
    · exact (buildVariant_agrees hvw).bind fun _ _ hb => (ih _).bind fun _ _ hbs => .ok (.cons hb hbs)

theorem buildShape_agrees {d e : Declaration} (h : d.Alike P s.attributeNamespace e) :
    Agree P (fun p q => p.1.Alike P q.1 ∧ p.2 = q.2) (buildShape s d) (buildShape s e) := by
  rw [buildShape, buildShape, h.ident]
  have hshape := h.shape
  revert hshape
  rcases d.shape with fs | vs | fs <;> rcases e.shape with gs | ws | gs <;> rintro (hfs | hvs | _)
  · refine (buildFields_agrees hfs).bind fun built built' hbuilt => h.attrs.agree ?_
    refine readAliases_agrees.bind fun a a' ha => ?_
    refine (readContext_agrees hbuilt h.left h.right).bind fun c c' hc => ?_
    obtain ⟨b, sources⟩ := c
    obtain ⟨b', sources'⟩ := c'
    obtain ⟨rfl, hsources⟩ : b = b' ∧ _ := hc
    exact .pure ⟨.struct hbuilt hsources, ha⟩
  · refine (buildVariants_agrees hvs []).bind fun built built' hbuilt => h.attrs.agree ?_
    refine readAliases_agrees.bind fun a a' ha => ?_
    exact Extract.Agrees.finish.bind fun _ _ _ => .pure ⟨.enum hbuilt, ha⟩
  · exact .refuse rfl rfl h.left h.right

/-! ### Conversions -/

/-- Conversions that are bound, and what they are refused for, if they are. -/
def BoundAlike (P : Span → Prop) (b b' : List Conversion × Option Fault) : Prop :=
  List.Forall₂ (Conversion.Alike P) b.1 b'.1 ∧ Option.Rel (fun f g => f.Placed P ∧ g.Placed P) b.2 b'.2

theorem find?_alike {cs cs' : List Conversion} (h : List.Forall₂ (Conversion.Alike P) cs cs') (function : String) :
    Option.Rel (Conversion.Alike P) (cs.find? (·.function = function)) (cs'.find? (·.function = function)) := by
  induction h with
  | nil => exact .none
  | cons hc _ ih =>
    rw [List.find?_cons, List.find?_cons, hc.function]
    split
    · exact .some hc
    · exact ih

theorem nameClash?_alike {cs cs' : List Conversion} (h : List.Forall₂ (Conversion.Alike P) cs cs') :
    ∀ {seen seen' : List Conversion}, List.Forall₂ (Conversion.Alike P) seen seen' →
      Option.Rel (fun f g => f.Placed P ∧ g.Placed P) (nameClash? seen cs) (nameClash? seen' cs') := by
  induction h with
  | nil => exact fun _ => .none
  | @cons c c' cs cs' hc _ ih =>
    intro seen seen' hseen
    have hfind := find?_alike hseen c'.function
    rw [nameClash?, nameClash?, hc.function]
    generalize seen.find? (·.function = c'.function) = found at hfind ⊢
    generalize seen'.find? (·.function = c'.function) = found' at hfind ⊢
    cases hfind with
    | none => exact ih (.cons hc hseen)
    | some => exact .some ⟨Fault.placed_report rfl hc.source.left, Fault.placed_report rfl hc.source.right⟩

theorem forall₂_conversion (variant : Option String) {sources sources' : List SymbolPath}
    (h : List.Forall₂ (SymbolPath.Alike P) sources sources') : List.Forall₂ (Conversion.Alike P)
      (sources.map fun source => { source, function := conversionName source, variant })
      (sources'.map fun source => { source, function := conversionName source, variant }) := by
  refine List.forall₂_map_left_iff.mpr (List.forall₂_map_right_iff.mpr (h.imp fun p q hpq => ⟨hpq, ?_, rfl⟩))
  show conversionName p = conversionName q
  rw [conversionName, conversionName, hpq.parts]

theorem bindSources_alike (variant : Option String) {fs gs : Fields ErrorField} {sources sources' : List SymbolPath}
    (hf : Fields.Rel ErrorField.Alike fs gs) (hs : List.Forall₂ (SymbolPath.Alike P) sources sources') :
    BoundAlike P (bindSources variant fs sources) (bindSources variant gs sources') := by
  cases hs with
  | nil => exact ⟨.nil, .none⟩
  | cons hfirst hrest =>
    rw [bindSources, bindSources, hf.size]
    split_ifs
    · have hcs := forall₂_conversion variant (.cons hfirst hrest)
      exact ⟨hcs, nameClash?_alike hcs .nil⟩
    · exact ⟨.nil, .some ⟨⟨hfirst.left, rfl⟩, ⟨hfirst.right, rfl⟩⟩⟩

theorem bindVariants_alike {vs ws : List ErrorVariant} (h : List.Forall₂ (ErrorVariant.Alike P) vs ws) :
    BoundAlike P (bindVariants vs) (bindVariants ws) := by
  induction h with
  | nil => exact ⟨.nil, .none⟩
  | @cons v w vs ws hvw _ ih =>
    have hfirst := bindSources_alike (some w.ident) hvw.fields hvw.sources
    rw [bindVariants, bindVariants, hvw.ident]
    revert hfirst
    rcases bindSources (some w.ident) v.fields v.sources with ⟨cs, _ | f⟩ <;>
      rcases bindSources (some w.ident) w.fields w.sources with ⟨cs', _ | f'⟩ <;> rintro ⟨hcs, hf | _⟩
    · exact ⟨List.rel_append hcs ih.1, ih.2⟩
    · exact ⟨hcs, .some hf⟩

theorem bindConversions_alike {shape shape' : ErrorShape} (h : shape.Alike P shape') :
    BoundAlike P (bindConversions shape) (bindConversions shape') := by
  cases h with
  | struct hf hs => exact bindSources_alike none hf hs
  | @enum vs ws h =>
    have hbound := bindVariants_alike h
    rw [bindConversions, bindConversions]
    revert hbound
    rcases bindVariants vs with ⟨cs, _ | f⟩ <;> rcases bindVariants ws with ⟨cs', _ | f'⟩ <;> rintro ⟨hcs, hf | _⟩
    · exact ⟨hcs, nameClash?_alike hcs .nil⟩
    · exact ⟨hcs, .some hf⟩

/-- Declarations that are alike are built into types that are alike, or are both refused. -/
theorem build_agrees {d e : Declaration} (h : d.Alike P s.attributeNamespace e) :
    Agree P (ErrorType.Alike P) (build s d) (build s e) := by
  refine (buildShape_agrees h).bind fun p q hpq => ?_
  obtain ⟨shape, aliases⟩ := p
  obtain ⟨shape', aliases'⟩ := q
  obtain ⟨hshape, rfl⟩ : _ ∧ aliases = aliases' := hpq
  have hbound := bindConversions_alike hshape
  dsimp only
  revert hbound
  rcases bindConversions shape with ⟨cs, _ | f⟩ <;> rcases bindConversions shape' with ⟨cs', _ | f'⟩ <;>
    rintro ⟨hcs, hf | _⟩
  · exact .ok ⟨h.ident, h.visibility, hshape, rfl, by rw [h.ident], by rw [h.visibility], hcs, h.docs⟩
  · exact .error hf.1 hf.2

end ErrorType
end TypedErrors
