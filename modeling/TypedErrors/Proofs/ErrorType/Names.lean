import Mathlib.Data.List.Nodup
import TypedErrors.Proofs.ErrorType.Described

/-! # Names in built types

The attributes that hold the fields of a context have distinct names, and so have the cases of a type. -/

namespace TypedErrors

/-! ### Attributes of fields -/

theorem positionalName_toList (i : Nat) : (positionalName i).toList = '_' :: Nat.toDigits 10 i := by
  have h : (toString (i : Int)).toList = Nat.toDigits 10 i := by
    show (Nat.repr i).toList = _
    rw [Nat.repr_eq_ofList_toDigits, String.toList_ofList]
  rw [positionalName, String.toList_append, ← h]
  rfl

theorem positionalName_injective {a b : Nat} (h : positionalName a = positionalName b) : a = b := by
  have hdigits : Nat.toDigits 10 a = Nat.toDigits 10 b := by
    have hlist := congrArg String.toList h
    rw [positionalName_toList, positionalName_toList] at hlist
    exact (List.cons.inj hlist).2
  rw [← Nat.ofDigitChars_ten_toDigits (n := a), ← Nat.ofDigitChars_ten_toDigits (n := b), hdigits]

/-- The name of an unnamed field has a digit after its underscore. -/
theorem exists_digit_positionalName (i : Nat) :
    ∃ c l, (positionalName i).toList = '_' :: c :: l ∧ c.isDigit = true := by
  rw [positionalName_toList]
  rcases hl : Nat.toDigits 10 i with _ | ⟨c, l⟩
  · exact absurd hl Nat.toDigits_ne_nil
  · exact ⟨c, l, rfl, Nat.isDigit_of_mem_toDigits (by decide) (by decide) (hl ▸ List.mem_cons_self ..)⟩

namespace Fields
variable {α β : Type}

/-- The names of named fields. -/
def names : Fields α → List String
  | .named items => items.map (·.1)
  | _ => []

theorem exists_named_of_mem {fs : Fields α} {n : String} (h : n ∈ fs.names) : ∃ items, fs = .named items := by
  cases fs with
  | named items => exact ⟨items, rfl⟩
  | unit => cases h
  | unnamed => cases h

/-- No two unnamed fields have the same number. -/
def Numbered : Fields α → Prop
  | .unnamed items => (items.map (·.1)).Nodup
  | _ => True

/-- The fields have different attributes. -/
def Apart (fs : Fields α) : Prop := (fs.entries.map (·.1.attribute)).Nodup

theorem apart_named {items : List (String × α)} : (Fields.named items).Apart ↔ (items.map (·.1)).Nodup := by
  simp [Apart, entries, FieldKey.attribute, Function.comp_def]

theorem apart_unnamed {items : List (Nat × α)} (h : (Fields.unnamed items).Numbered) :
    (Fields.unnamed items).Apart := by
  have hmap : (Fields.unnamed items).entries.map (·.1.attribute) =
      (items.map (·.1)).map fun i : Nat => positionalName i := by
    simp [entries, FieldKey.attribute]
  unfold Apart
  rw [hmap]
  exact List.Nodup.map (fun _ _ => positionalName_injective) h

end Fields

/-- The fields of a declaration, and of its variants, have different numbers. -/
def Declaration.Numbered (d : Declaration) : Prop :=
  match d.shape with
  | .struct fields | .union fields => fields.Numbered
  | .enum variants => ∀ v ∈ variants, v.fields.Numbered

namespace ErrorType
variable {s : Settings} {owner : String} {d : Declaration} {t : ErrorType}

theorem forM_eq_ok {α : Type} {f : α → Except Fault Unit} :
    ∀ {xs : List α}, xs.forM f = .ok () → ∀ x ∈ xs, f x = .ok ()
  | [], _ => nofun
  | x :: xs, h => by
    rw [List.forM_eq_forM, List.forM_cons] at h
    obtain ⟨⟨⟩, hx, hxs⟩ := bind_eq_ok.mp h
    exact List.forall_mem_cons.mpr ⟨hx, forM_eq_ok hxs⟩

theorem checkNames_nodup {items : List (String × Field)} (h : checkNames owner items = .ok ()) :
    (items.map (·.1)).Nodup := by
  rw [List.nodup_iff_count_le_one]
  intro name
  by_cases hmem : name ∈ items.map (·.1)
  · obtain ⟨p, hp, rfl⟩ := List.mem_map.mp hmem
    have hname := forM_eq_ok h p hp
    dsimp only at hname
    split at hname
    · cases hname
    · next hle => exact Nat.le_of_not_lt hle
  · rw [List.count_eq_zero_of_not_mem hmem]
    exact Nat.zero_le 1

/-- Fields that are built have the keys of those declared, and different attributes. -/
theorem buildFields_apart {fs : Fields Field} {gs : Fields ErrorField} (h : buildFields s owner fs = .ok gs)
    (hn : fs.Numbered) : gs.Apart := by
  cases fs with
  | unit =>
    obtain rfl := Except.ok.inj h
    exact List.nodup_nil
  | named items =>
    obtain ⟨_, hcheck, hgs⟩ := bind_eq_ok.mp h
    cases Fields.mapM_eq_ok.mp hgs with
    | named hrel =>
      rw [Fields.apart_named, ← map_eq_of_forall₂ hrel fun _ _ h => h.1]
      exact checkNames_nodup hcheck
  | unnamed items =>
    have hgs : (Fields.unnamed items).mapM (buildField s) = .ok gs := h
    cases Fields.mapM_eq_ok.mp hgs with
    | unnamed hrel =>
      refine Fields.apart_unnamed ?_
      show (List.map _ _).Nodup
      rw [← map_eq_of_forall₂ hrel fun _ _ h => h.1]
      exact hn

/-! ### Variants -/

theorem buildVariants_eq_ok {seen : List String} {vs : List Variant} {built : List ErrorVariant}
    (h : buildVariants s owner seen vs = .ok built) :
    List.Forall₂ (fun v b => buildVariant s owner v = .ok b) vs built ∧ (vs.map (·.ident)).Nodup ∧
      ∀ v ∈ vs, v.ident ∉ seen := by
  induction vs generalizing seen built with
  | nil =>
    obtain rfl := Except.ok.inj h
    exact ⟨.nil, List.nodup_nil, nofun⟩
  | cons v vs ih =>
    obtain ⟨x, xs, hv, hx, hxs, rfl⟩ := buildVariants_cons_eq_ok.mp h
    obtain ⟨hbuilt, hnodup, hseen⟩ := ih hxs
    refine ⟨.cons hx hbuilt, List.nodup_cons.mpr ⟨?_, hnodup⟩, List.forall_mem_cons.mpr ⟨hv, fun w hw => ?_⟩⟩
    · intro hmem
      obtain ⟨w, hw, hident⟩ := List.mem_map.mp hmem
      exact hseen w hw (hident ▸ List.mem_cons_self ..)
    · exact fun hmem => hseen w hw (List.mem_cons_of_mem _ hmem)

/-! ### Types -/

theorem build_eq_ok (h : build s d = .ok t) : ∃ aliases, buildShape s d = .ok (t.shape, aliases) ∧
    bindConversions t.shape = (t.conversions, none) ∧ t.ident = d.ident := by
  unfold build at h
  obtain ⟨⟨shape, aliases⟩, hshape, h⟩ := bind_eq_ok.mp h
  dsimp only at h
  split at h
  · cases h
  · next conversions hconversions =>
    obtain rfl := Except.ok.inj h
    exact ⟨aliases, hshape, hconversions, rfl⟩

/-- The names of a type are apart: those of its cases, and of the attributes of each. -/
structure Apart (t : ErrorType) : Prop where
  cases : (t.kindCases.map (·.ident)).Nodup
  fields : ∀ c ∈ t.kindCases, c.allFields.Apart

theorem kindCases_struct {fields : Fields ErrorField} {description : BoundDescription} {sources : List SymbolPath}
    (h : t.shape = .struct fields description sources) : t.kindCases = [.ofFields t.ident fields] := by
  rw [kindCases, h]

theorem kindCases_enum {variants : List ErrorVariant} (h : t.shape = .enum variants) :
    t.kindCases = variants.map fun v => .ofFields v.ident v.fields := by
  rw [kindCases, h]

/-- The shape of a built type, seen from its declaration. -/
inductive Shaped (s : Settings) (d : Declaration) (t : ErrorType) : Prop
  | struct {fields : Fields Field} {built : Fields ErrorField} {description : BoundDescription}
      {sources : List SymbolPath} (hd : d.shape = .struct fields) (hf : buildFields s d.ident fields = .ok built)
      (hdesc : Describes s.attributeNamespace d.attrs .attribute built description)
      (ht : t.shape = .struct built description sources)
  | enum {variants : List Variant} {built : List ErrorVariant} (hd : d.shape = .enum variants)
      (hv : List.Forall₂ (fun v b => buildVariant s d.ident v = .ok b) variants built)
      (hnames : (variants.map (·.ident)).Nodup) (ht : t.shape = .enum built)

theorem build_shaped (h : build s d = .ok t) : Shaped s d t := by
  obtain ⟨aliases, hshape, -⟩ := build_eq_ok h
  unfold buildShape at hshape
  split at hshape
  · next fields hd =>
    obtain ⟨built, hbuilt, hattrs⟩ := bind_eq_ok.mp hshape
    obtain ⟨es, es', hes, hrun⟩ := Extract.ofAttributes_eq_ok hattrs
    obtain ⟨read, es₁, hread, hrun⟩ := Extract.run_bind_eq_ok.mp hrun
    obtain ⟨⟨description, sources⟩, es₂, hcontext, hrun⟩ := Extract.run_bind_eq_ok.mp hrun
    have ht : t.shape = .struct built description sources :=
      (congrArg Prod.fst (Except.ok.inj (Prod.mk.inj hrun).1)).symm
    exact .struct hd hbuilt (describes_of_readContext hes (readAliases_unmarked hread) hcontext) ht
  · next variants hd =>
    obtain ⟨built, hbuilt, hattrs⟩ := bind_eq_ok.mp hshape
    obtain ⟨es, es', -, hrun⟩ := Extract.ofAttributes_eq_ok hattrs
    obtain ⟨read, es₁, -, hrun⟩ := Extract.run_bind_eq_ok.mp hrun
    obtain ⟨_, es₂, -, hrun⟩ := Extract.run_bind_eq_ok.mp hrun
    have ht : t.shape = .enum built := (congrArg Prod.fst (Except.ok.inj (Prod.mk.inj hrun).1)).symm
    obtain ⟨hv, hnames, -⟩ := buildVariants_eq_ok hbuilt
    exact .enum hd hv hnames ht
  · cases hshape

theorem build_apart (h : build s d = .ok t) (hn : d.Numbered) : t.Apart := by
  cases build_shaped h with
  | struct hd hf hdesc ht =>
    rw [Declaration.Numbered, hd] at hn
    have hcases := kindCases_struct ht
    refine ⟨by rw [hcases]; exact List.nodup_singleton _, ?_⟩
    rw [hcases]
    exact List.forall_mem_singleton.mpr (buildFields_apart hf hn)
  | enum hd hv hnames ht =>
    rw [Declaration.Numbered, hd] at hn
    have hcases := kindCases_enum ht
    constructor
    · have hidents := map_eq_of_forall₂ hv fun _ _ h => (buildVariant_eq_ok h).1.symm
      rw [hidents] at hnames
      rw [hcases, List.map_map]
      exact hnames
    · intro c hc
      rw [hcases] at hc
      obtain ⟨b, hb, rfl⟩ := List.mem_map.mp hc
      obtain ⟨v, hmem, hbuilt⟩ := exists_left_of_forall₂ hv b hb
      exact buildFields_apart (buildVariant_eq_ok hbuilt).2.1 (hn v hmem)

/-! ### Conversions -/

/-- The conversions have the names of their sources. -/
def FromSources (cs : List Conversion) : Prop := ∀ c ∈ cs, c.function = conversionName c.source

theorem bindSources_fromSources (variant : Option String) (fields : Fields ErrorField) (sources : List SymbolPath) :
    FromSources (bindSources variant fields sources).1 := by
  cases sources with
  | nil => exact List.forall_mem_nil _
  | cons first rest =>
    rw [bindSources]
    split
    · intro c hc
      obtain ⟨source, -, rfl⟩ := List.mem_map.mp hc
      rfl
    · exact List.forall_mem_nil _

theorem bindVariants_fromSources (vs : List ErrorVariant) : FromSources (bindVariants vs).1 := by
  induction vs with
  | nil => exact nofun
  | cons v vs ih =>
    have hv := bindSources_fromSources (some v.ident) v.fields v.sources
    rw [bindVariants]
    split
    · next cs f h => rwa [h] at hv
    · next cs h =>
      rw [h] at hv
      exact List.forall_mem_append.mpr ⟨hv, ih⟩

theorem build_fromSources (h : build s d = .ok t) : FromSources t.conversions := by
  obtain ⟨-, -, hconversions, -⟩ := build_eq_ok h
  cases hshape : t.shape with
  | struct fields description sources =>
    have hsources := bindSources_fromSources none fields sources
    rw [hshape, bindConversions] at hconversions
    rwa [hconversions] at hsources
  | enum variants =>
    have hvariants := bindVariants_fromSources variants
    rw [hshape, bindConversions] at hconversions
    split at hconversions
    · cases hconversions
    · next cs hcs =>
      rw [hcs] at hvariants
      rwa [← (Prod.mk.inj hconversions).1]

theorem ofErrorType_type {g : GeneratedType} (h : GeneratedType.ofErrorType t = .ok g) : g.type = t := by
  unfold GeneratedType.ofErrorType at h
  split at h
  · cases h
  · obtain ⟨_, -, h⟩ := bind_eq_ok.mp h
    obtain ⟨_, -, h⟩ := bind_eq_ok.mp h
    obtain ⟨_, -, h⟩ := bind_eq_ok.mp h
    exact congrArg GeneratedType.type (Except.ok.inj h).symm

end ErrorType
end TypedErrors
