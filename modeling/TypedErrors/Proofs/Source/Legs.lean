import TypedErrors.Proofs.Source.Annotations

/-! # Legs of a reading

A reading goes in legs: a token that is taken, or the type of a field (`Tours`). Two readings are alike when they take
the same tokens and read the same types, perhaps in other steps. What a parser makes of the first of them it makes of
the second one too, but for places, when it has fuel for the steps (`Replays`). There is one rule for each thing that a
parser can do. -/

namespace TypedErrors

/-- A token that is taken, or a type that is read in the steps up to the place. -/
inductive Leg
  | token (s : Step)
  | type (e : TypeExpr) (stop : Position) (ss : List Step)

/-- The type of a field, and the span of the field but for its start. -/
abbrev Ending := TypeExpr × Option Span

def Span.ending (s : Span) : Span := { s with line := 1, column := 1 }

def Field.ending (f : Field) : Ending := (f.type, f.span.map Span.ending)

/-- The ending of a field with the type up to the place. -/
def TypeExpr.ending (file : String) (e : TypeExpr) (stop : Position) : Ending :=
  (e, some ((Position.spanTo file {} stop).ending))

namespace Leg

def steps : Leg → List Step
  | token s => [s]
  | type _ _ ss => ss

def ending? (file : String) : Leg → Option Ending
  | token _ => none
  | type e stop _ => some (e.ending file stop)

/-- The same token, or the same type in any steps. -/
inductive Like : Leg → Leg → Prop
  | token {s : Step} : Like (.token s) (.token s)
  | type {e : TypeExpr} {p q : Position} {ss us : List Step} : Like (.type e p ss) (.type e q us)

theorem like_token {s : Step} {J L : List Leg} (h : List.Forall₂ Like (.token s :: J) L) :
    ∃ K, L = .token s :: K ∧ List.Forall₂ Like J K := by
  obtain _ | ⟨⟨⟩, h⟩ := h
  exact ⟨_, rfl, h⟩

theorem like_type {e : TypeExpr} {p : Position} {ss : List Step} {J L : List Leg}
    (h : List.Forall₂ Like (.type e p ss :: J) L) : ∃ q us K, L = .type e q us :: K ∧ List.Forall₂ Like J K := by
  obtain _ | ⟨⟨⟩, h⟩ := h
  exact ⟨_, _, _, rfl, h⟩

end Leg

def stepsOf (J : List Leg) : List Step := J.flatMap Leg.steps

def endings (file : String) (J : List Leg) : List Ending := J.filterMap (Leg.ending? file)

theorem stepsOf_cons (j : Leg) (J : List Leg) : stepsOf (j :: J) = j.steps ++ stepsOf J := List.flatMap_cons

theorem stepsOf_append (J K : List Leg) : stepsOf (J ++ K) = stepsOf J ++ stepsOf K := List.flatMap_append

theorem endings_append (file : String) (J K : List Leg) : endings file (J ++ K) = endings file J ++ endings file K :=
  List.filterMap_append

/-- The legs lead from what is ahead first to what is ahead then. -/
inductive Tours : Lookahead → List Leg → Lookahead → Prop
  | nil {a : Lookahead} : Tours a [] a
  | token {a b c : Lookahead} {t : Token} {s : Step} {J : List Leg} (ht : a.token? = some t) (hs : t.lexeme = s.lexeme)
      (hb : Lookahead.fetch s.next (some t) a.after = .ok b) (h : Tours b J c) : Tours a (.token s :: J) c
  | type {a b c : Lookahead} {e : TypeExpr} {stop : Position} {ss : List Step} {J : List Leg} (he : e.Steps ss)
      (hwalk : Walk a ss b) (hend : Site.typeEnd.admits b.head? = true) (hstop : b.last.map Token.stop = some stop)
      (h : Tours b J c) : Tours a (.type e stop ss :: J) c

variable {α β γ δ ι : Type} {a a' b b' c : Lookahead} {J J' K K' : List Leg} {file : String} {site : Site}

namespace Tours

theorem append (h : Tours a J b) (h' : Tours b K c) : Tours a (J ++ K) c := by
  induction h with
  | nil => exact h'
  | token ht hs hb _ ih => exact .token ht hs hb (ih h')
  | type he hwalk hend hstop _ ih => exact .type he hwalk hend hstop (ih h')

theorem split (h : Tours a (J ++ K) c) : ∃ b, Tours a J b ∧ Tours b K c := by
  induction J generalizing a with
  | nil => exact ⟨a, .nil, h⟩
  | cons j J ih =>
    cases h with
    | token ht hs hb h =>
      obtain ⟨b, hJ, hK⟩ := ih h
      exact ⟨b, .token ht hs hb hJ, hK⟩
    | type he hwalk hend hstop h =>
      obtain ⟨b, hJ, hK⟩ := ih h
      exact ⟨b, .type he hwalk hend hstop hJ, hK⟩

theorem walk (h : Tours a J b) : Walk a (stepsOf J) b := by
  induction h with
  | nil => exact .nil
  | token ht hs hb _ ih => exact .cons ht hs hb ih
  | type _ hwalk _ _ _ ih => exact hwalk.append ih

theorem fetched (h : Tours a J b) (ha : ∃ site, a.FetchedAt site) : ∃ site, b.FetchedAt site := by
  obtain ⟨site, ha⟩ := ha
  exact h.walk.fetched ha

/-- Every leg has a step. -/
theorem length_le (h : Tours a J b) : J.length ≤ (stepsOf J).length := by
  induction h with
  | nil => exact Nat.le_refl 0
  | token _ _ _ _ ih => exact Nat.succ_le_succ ih
  | @type _ _ _ e stop ss J he _ _ _ _ ih =>
    obtain ⟨s, us, rfl, -⟩ := he.exists_name
    rw [stepsOf_cons, List.length_append, List.length_cons, Leg.steps, List.length_cons]
    omega

/-- Legs that are alike begin alike. -/
theorem head (h : Tours a J b) (h' : Tours a' J' b') (hlike : List.Forall₂ Leg.Like J J') (hb : b'.head? = b.head?) :
    a'.head? = a.head? := by
  cases h with
  | nil =>
    cases hlike
    cases h'
    exact hb
  | token ht hs =>
    obtain ⟨K, rfl, -⟩ := Leg.like_token hlike
    cases h' with
    | token ht' hs' =>
      rw [Lookahead.head?, Lookahead.head?, ht, ht']
      exact congrArg (fun l => some (Lexeme.terminal l)) (hs'.trans hs.symm)
  | type he hwalk =>
    obtain ⟨q, us, K, rfl, -⟩ := Leg.like_type hlike
    cases h' with
    | type he' hwalk' =>
      obtain ⟨_, _, rfl, -⟩ := he.exists_name
      obtain ⟨_, _, rfl, -⟩ := he'.exists_name
      rw [hwalk.head, hwalk'.head]
      rfl

end Tours

theorem Walk.exists_last {s : Step} {ss : List Step} (h : Walk a (s :: ss) b) : ∃ t, b.last = some t := by
  induction ss generalizing a s with
  | nil =>
    obtain _ | ⟨-, -, hb, h⟩ := h
    cases h
    exact ⟨_, Lookahead.last_of_fetch hb⟩
  | cons s' ss ih =>
    obtain _ | ⟨-, -, -, h⟩ := h
    exact ih h

theorem Parse.there_of_last {p : Position} (h : a.last.map Token.stop = some p) : there a = .ok (p, a) := by
  obtain ⟨token?, after, last⟩ := a
  obtain ⟨t, rfl, rfl⟩ := Option.map_eq_some_iff.mp h
  rfl

theorem forall₂_append {J' : List Leg} (h : List.Forall₂ Leg.Like (J ++ K) J') :
    ∃ M N, J' = M ++ N ∧ List.Forall₂ Leg.Like J M ∧ List.Forall₂ Leg.Like K N :=
  ⟨_, _, (List.take_append_drop J.length J').symm, by simpa using List.forall₂_take J.length h,
    by simpa using List.forall₂_drop J.length h⟩

/-! ### What a parser makes of readings that are alike -/

/-- What is kept of a value when places change, and the endings of the fields in it. -/
structure View (α γ : Type) where
  kept : α → γ
  endings : α → List Ending

/-- The view of a value without places. -/
def View.plain : View α α := ⟨id, fun _ => []⟩

/-- What `x` returns, with a terminal ahead for which `A` holds, it makes of at least `d` legs. Of any legs like these
each `y i` makes the same with fuel for `c` more steps. The endings in what is returned are those of the legs behind
those of the legs before. -/
def Replays (file : String) (c d : Nat) (A : Option Terminal → Prop) (V : View α γ) (pre : List Ending)
    (pre' : ι → List Ending) (x : Parse α) (y : ι → Nat → Parse α) : Prop :=
  ∀ a v b, (∃ site, a.FetchedAt site) → A a.head? → x a = .ok (v, b) →
    ∃ J, Tours a J b ∧ d ≤ J.length ∧ V.endings v = pre ++ endings file J ∧
      ∀ i J' a' b' m, List.Forall₂ Leg.Like J J' → Tours a' J' b' → b'.head? = b.head? →
        (stepsOf J').length + c ≤ m → ∃ w, y i m a' = .ok (w, b') ∧ V.kept w = V.kept v ∧
          V.endings w = pre' i ++ endings file J'

namespace Replays

variable {m c c' d d' : Nat} {A : Option Terminal → Prop} {V : View α γ} {W : View β δ} {pre : List Ending}
  {pre' : ι → List Ending} {x : Parse α} {y : ι → Nat → Parse α} {f : α → Parse β} {g : ι → Nat → α → Parse β} {v : α}
  {w : ι → α}

theorem pure (hkept : ∀ i, V.kept (w i) = V.kept v) (hpre : V.endings v = pre) (hpre' : ∀ i, V.endings (w i) = pre' i) :
    Replays file c 0 A V pre pre' (Pure.pure v) fun i _ => Pure.pure (w i) := by
  intro a z b _ _ hz
  obtain ⟨rfl, rfl⟩ := Prod.mk.inj (Except.ok.inj hz)
  refine ⟨[], .nil, Nat.zero_le _, hpre.trans (List.append_nil _).symm, fun i J' a' b' m hlike htours _ _ => ?_⟩
  cases hlike
  cases htours
  exact ⟨w i, rfl, hkept i, (hpre' i).trans (List.append_nil _).symm⟩

theorem exhausted : Replays file c d A V pre pre' Parse.exhausted y := by
  intro a v b _ _ h
  cases h

/-- The rule for a function that uses up fuel. -/
theorem succ (hc : 1 ≤ c) (h : Replays file (c - 1) d A V pre pre' x fun i m => y i (m + 1)) :
    Replays file c d A V pre pre' x y := by
  intro a v b ha hA hv
  obtain ⟨J, htours, hd, hends, hrest⟩ := h a v b ha hA hv
  refine ⟨J, htours, hd, hends, fun i J' a' b' m hlike htours' hb hm => ?_⟩
  obtain ⟨m, rfl⟩ : ∃ k, m = k + 1 := ⟨m - 1, by omega⟩
  exact hrest i J' a' b' m hlike htours' hb (by omega)

/-- More fuel does, too. -/
theorem later {φ : Nat → Nat} (hφ : ∀ m, m ≤ φ m) (h : Replays file c d A V pre pre' x y) :
    Replays file c d A V pre pre' x fun i m => y i (φ m) := by
  intro a v b ha hA hv
  obtain ⟨J, htours, hd, hends, hrest⟩ := h a v b ha hA hv
  exact ⟨J, htours, hd, hends, fun i J' a' b' m hlike htours' hb hm =>
    hrest i J' a' b' (φ m) hlike htours' hb (hm.trans (hφ m))⟩

theorem bind_post {B : α → Option Terminal → Prop} (hx : Replays file c d A V [] (fun _ : ι => []) x y)
    (hpost : ∀ {a v b}, (∃ site, a.FetchedAt site) → A a.head? → x a = .ok (v, b) → B v b.head?)
    (hf : ∀ v, Replays file (c + d) (d' - d) (B v) W (pre ++ V.endings v)
      (fun p : ι × { w : α // V.kept w = V.kept v } => pre' p.1 ++ V.endings p.2) (f v) fun p m => g p.1 m p.2) :
    Replays file c d' A W pre pre' (x >>= f) fun i m => y i m >>= g i m := by
  intro a z b ha hA hz
  obtain ⟨v, c', hv, hz⟩ := Parse.bind_eq_ok.mp hz
  obtain ⟨J, hJ, hd, hends, hyJ⟩ := hx a v c' ha hA hv
  obtain ⟨K, hK, hd', hends', hyK⟩ := hf v c' z b (hJ.fetched ha) (hpost ha hA hv) hz
  refine ⟨J ++ K, hJ.append hK, by rw [List.length_append]; omega, ?_, fun i L a' b' m hlike htours hb hm => ?_⟩
  · rw [hends', hends, List.nil_append, endings_append, List.append_assoc]
  · obtain ⟨J', K', rfl, hlikeJ, hlikeK⟩ := forall₂_append hlike
    obtain ⟨e, hJ', hK'⟩ := htours.split
    have hlength := hJ'.length_le
    rw [← hlikeJ.length_eq] at hlength
    rw [stepsOf_append, List.length_append] at hm
    obtain ⟨w, hw, hkept, hwends⟩ :=
      hyJ i J' a' e m hlikeJ hJ' (hK.head hK' hlikeK hb) (by omega)
    obtain ⟨z', hz', hkept', hzends⟩ := hyK (i, ⟨w, hkept⟩) K' e b' m hlikeK hK' hb (by omega)
    refine ⟨z', Parse.bind_eq_ok.mpr ⟨w, e, hw, hz'⟩, hkept', hzends.trans ?_⟩
    show pre' i ++ V.endings w ++ _ = _
    rw [hwends, List.nil_append, endings_append, List.append_assoc]

theorem bind (hx : Replays file c d A V [] (fun _ : ι => []) x y)
    (hf : ∀ v, Replays file (c + d) (d' - d) (fun _ => True) W (pre ++ V.endings v)
      (fun p : ι × { w : α // V.kept w = V.kept v } => pre' p.1 ++ V.endings p.2) (f v) fun p m => g p.1 m p.2) :
    Replays file c d' A W pre pre' (x >>= f) fun i m => y i m >>= g i m :=
  hx.bind_post (fun _ _ _ => trivial) hf

theorem reindex {κ : Type} (h : Replays file c d A V pre pre' x y) (φ : κ → ι) :
    Replays file c d A V pre (fun j => pre' (φ j)) x fun j => y (φ j) := by
  intro a v b ha hA hv
  obtain ⟨J, htours, hd, hends, hrest⟩ := h a v b ha hA hv
  exact ⟨J, htours, hd, hends, fun j => hrest (φ j)⟩

theorem congr_endings {pre₁ : List Ending} {pre₁' : ι → List Ending} (h : Replays file c d A V pre₁ pre₁' x y)
    (hpre : pre₁ = pre) (hpre' : ∀ i, pre₁' i = pre' i) : Replays file c d A V pre pre' x y := by
  obtain rfl : pre₁' = pre' := funext hpre'
  exact hpre ▸ h

theorem bind_same_post {y : ι → Nat → Parse α} {B : α → Option Terminal → Prop}
    (hx : Replays file c d A .plain [] (fun _ : ι => []) x y)
    (hpost : ∀ {a v b}, (∃ site, a.FetchedAt site) → A a.head? → x a = .ok (v, b) → B v b.head?)
    (hf : ∀ v, Replays file (c + d) (d' - d) (B v) W pre pre' (f v) fun i m => g i m v) :
    Replays file c d' A W pre pre' (x >>= f) fun i m => y i m >>= g i m := by
  refine hx.bind_post hpost fun v => ?_
  have hsame : (fun (p : ι × { w : α // View.plain.kept w = View.plain.kept v }) m => g p.1 m p.2) =
      fun p m => g p.1 m v := by
    funext p m
    rw [show p.2.1 = v from p.2.2]
  rw [hsame]
  simp only [View.plain, List.append_nil]
  exact (hf v).reindex Prod.fst

/-- The rule for a part without places. -/
theorem bind_same {y : ι → Nat → Parse α} (hx : Replays file c d A .plain [] (fun _ : ι => []) x y)
    (hf : ∀ v, Replays file (c + d) (d' - d) (fun _ => True) W pre pre' (f v) fun i m => g i m v) :
    Replays file c d' A W pre pre' (x >>= f) fun i m => y i m >>= g i m :=
  hx.bind_same_post (fun _ _ _ => trivial) hf

theorem bind_peek {f : Option Terminal → Parse β} {g : ι → Nat → Option Terminal → Parse β}
    (hf : ∀ o, A o → Replays file c d (· = o) W pre pre' (f o) fun i m => g i m o) :
    Replays file c d A W pre pre' (Parse.peek >>= f) fun i m => Parse.peek >>= g i m := by
  intro a v b ha hA hv
  rw [Parse.peek_bind] at hv
  obtain ⟨J, hJ, hd, hends, hrest⟩ := hf a.head? hA a v b ha rfl hv
  refine ⟨J, hJ, hd, hends, fun i J' a' b' m hlike hJ' hb hm => ?_⟩
  obtain ⟨w, hw, hkept⟩ := hrest i J' a' b' m hlike hJ' hb hm
  refine ⟨w, ?_, hkept⟩
  show g i m a'.head? a' = _
  rw [hJ.head hJ' hlike hb]
  exact hw

theorem bind_check {f : Unit → Parse β} {g : ι → Nat → Unit → Parse β}
    (hf : Replays file c d (fun k => A k ∧ site.admits k = true) W pre pre' (f ()) fun i m => g i m ()) :
    Replays file c d A W pre pre' (Parse.check site >>= f) fun i m => Parse.check site >>= g i m := by
  intro a v b ha hA hv
  obtain ⟨hadmits, hv⟩ := Parse.bind_check_eq_ok.mp hv
  obtain ⟨J, hJ, hd, hends, hrest⟩ := hf a v b ha ⟨hA, hadmits⟩ hv
  refine ⟨J, hJ, hd, hends, fun i J' a' b' m hlike hJ' hb hm => ?_⟩
  obtain ⟨w, hw, hkept⟩ := hrest i J' a' b' m hlike hJ' hb hm
  exact ⟨w, Parse.bind_check_eq_ok.mpr ⟨hJ.head hJ' hlike hb ▸ hadmits, hw⟩, hkept⟩

/-- The rule for a look at a place. -/
theorem bind_place {look : Parse Position} {f : Position → Parse β} {g : ι → Nat → Position → Parse β}
    (hlook : ∀ {a p b}, look a = .ok (p, b) → b = a) (htotal : ∀ a, ∃ p, look a = .ok (p, a))
    (hf : ∀ p, Replays file c d A W pre (fun q : ι × Position => pre' q.1) (f p) fun q m => g q.1 m q.2) :
    Replays file c d A W pre pre' (look >>= f) fun i m => look >>= g i m := by
  intro a v b ha hA hv
  obtain ⟨p, e, hp, hfp⟩ := Parse.bind_eq_ok.mp hv
  obtain rfl := hlook hp
  obtain ⟨J, hJ, hd, hends, hrest⟩ := hf p _ v b ha hA hfp
  refine ⟨J, hJ, hd, hends, fun i J' a' b' m hlike hJ' hb hm => ?_⟩
  obtain ⟨q, hq⟩ := htotal a'
  obtain ⟨w, hw, hkept⟩ := hrest (i, q) J' a' b' m hlike hJ' hb hm
  exact ⟨w, (Parse.bind_of_ok hq).trans hw, hkept⟩

theorem bind_here {f : Position → Parse β} {g : ι → Nat → Position → Parse β}
    (hf : ∀ p, Replays file c d A W pre (fun q : ι × Position => pre' q.1) (f p) fun q m => g q.1 m q.2) :
    Replays file c d A W pre pre' (Parse.here >>= f) fun i m => Parse.here >>= g i m := by
  refine bind_place (fun h => Parse.here_still h) (fun a => ?_) hf
  obtain ⟨token?, after, last⟩ := a
  cases token? <;> exact ⟨_, rfl⟩

theorem bind_there {f : Position → Parse β} {g : ι → Nat → Position → Parse β}
    (hf : ∀ p, Replays file c d A W pre (fun q : ι × Position => pre' q.1) (f p) fun q m => g q.1 m q.2) :
    Replays file c d A W pre pre' (Parse.there >>= f) fun i m => Parse.there >>= g i m := by
  refine bind_place (fun h => Parse.there_still h) (fun a => ?_) hf
  obtain ⟨token?, after, last⟩ := a
  cases last <;> exact ⟨_, rfl⟩

theorem bind_shift {f : Token → Parse β} {g : ι → Nat → Token → Parse β}
    (hf : ∀ t, Replays file (c + 1) (d - 1) (fun k => site.admits k = true) W pre
      (fun p : ι × { t' : Token // t'.lexeme = t.lexeme } => pre' p.1) (f t) fun p m => g p.1 m p.2) :
    Replays file c d A W pre pre' (Parse.shift site >>= f) fun i m => Parse.shift site >>= g i m := by
  intro a v b ha _ hv
  obtain ⟨t, e, ht, hv⟩ := Parse.bind_eq_ok.mp hv
  obtain ⟨htoken, hfetch⟩ := Parse.shift_eq_ok.mp ht
  obtain ⟨J, hJ, hd, hends, hrest⟩ := hf t e v b ⟨_, _, _, hfetch⟩ (Lookahead.admits_of_fetch hfetch) hv
  refine ⟨.token ⟨t.lexeme, site⟩ :: J, .token htoken rfl hfetch hJ, by rw [List.length_cons]; omega, hends,
    fun i L a' b' m hlike htours hb hm => ?_⟩
  obtain ⟨J', rfl, hlike'⟩ := Leg.like_token hlike
  cases htours with
  | @token _ _ _ t' _ _ ht' hs' hb' htours =>
    rw [stepsOf_cons, List.length_append, Leg.steps, List.length_singleton] at hm
    obtain ⟨w, hw, hkept, hwends⟩ := hrest (i, ⟨t', hs'⟩) J' _ b' m hlike' htours hb (by omega)
    exact ⟨w, (Parse.bind_of_ok (Parse.shift_eq_ok.mpr ⟨ht', hb'⟩)).trans hw, hkept, hwends⟩

/-- The rule for the type of a field, and a look at where it ends. -/
theorem bind_type {n : Nat} {f : TypeExpr → Position → Parse β} {g : ι → Nat → TypeExpr → Position → Parse β}
    (hc : 2 ≤ c) (hA : ∀ k, A k → k = some .name)
    (hf : ∀ e p, Replays file c (d - 1) (fun _ => True) W (pre ++ [e.ending file p])
      (fun q : ι × Position => pre' q.1 ++ [e.ending file q.2]) (f e p) fun q m => g q.1 m e q.2) :
    Replays file c d A W pre pre' (Parse.typeExpr n >>= fun e => Parse.there >>= f e)
      fun i m => Parse.typeExpr m >>= fun e => Parse.there >>= g i m e := by
  rintro a v b ⟨site, ha⟩ hhead hv
  obtain ⟨e, o, he, hthere⟩ := Parse.bind_eq_ok.mp hv
  obtain ⟨p, o', hp, hfp⟩ := Parse.bind_eq_ok.mp hthere
  obtain rfl := Parse.there_still hp
  obtain ⟨ss, hss, hsteps, hend⟩ := Parse.typeExpr_traces n site a e o' ha (hA _ hhead) he
  have hstop : o'.last.map Token.stop = some p := by
    obtain ⟨s, us, rfl, -⟩ := hsteps.exists_name
    obtain ⟨t, ht⟩ := hss.exists_last
    rw [ht, Option.map_some, Parse.there_eq_ok ht hp]
  obtain ⟨J, hJ, hd, hends, hrest⟩ := hf e p o' v b (hss.fetched ha) trivial hfp
  refine ⟨.type e p ss :: J, .type hsteps hss hend hstop hJ, by rw [List.length_cons]; omega, ?_,
    fun i L a' b' m hlike htours hb hm => ?_⟩
  · rw [hends, List.append_assoc]
    rfl
  · obtain ⟨q, us, J', rfl, hlike'⟩ := Leg.like_type hlike
    cases htours with
    | @type _ o' _ _ _ _ _ hus hwalk hend' hstop' htours =>
      rw [stepsOf_cons, List.length_append, Leg.steps] at hm
      obtain ⟨w, hw, hkept, hwends⟩ := hrest (i, q) J' o' b' m hlike' htours hb (by omega)
      obtain ⟨_, htype, rfl⟩ := Parse.typeExpr_retraces m hus (by omega) hend' a' o' hwalk rfl
      refine ⟨w, ?_, hkept, ?_⟩
      · exact (Parse.bind_of_ok htype).trans ((Parse.bind_of_ok (Parse.there_of_last hstop')).trans hw)
      · refine hwends.trans ?_
        rw [List.append_assoc]
        rfl

end Replays
end TypedErrors
