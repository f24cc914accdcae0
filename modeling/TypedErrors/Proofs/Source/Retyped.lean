import TypedErrors.Proofs.Source.Insertion
import TypedErrors.Proofs.Source.Replaced
import TypedErrors.Proofs.Source.Replays

/-! # Rendered types in place of written ones

A source that is loaded is loaded alike when the type of a field in it is replaced by its rendered text. The tokens of
that text are those that were written, with dots for double colons and without the commas before closing brackets
(`loadSource_render`). -/

namespace TypedErrors

variable {file : String} {a a' b b' : Lookahead} {J J' : List Leg} {x : Ending} {k : Nat}

/-! ### The leg of a field -/

theorem exists_type_leg (h : (endings file J)[k]? = some x) : ∃ M e stop ss N,
    J = M ++ .type e stop ss :: N ∧ (endings file M).length = k ∧ x = e.ending file stop := by
  induction J generalizing k with
  | nil => cases h
  | cons j J ih =>
    cases j with
    | token s =>
      obtain ⟨M, e, stop, ss, N, rfl, hM, hx⟩ := ih h
      exact ⟨.token s :: M, e, stop, ss, N, rfl, hM, hx⟩
    | type e stop ss =>
      cases k with
      | zero => exact ⟨[], e, stop, ss, J, rfl, rfl, (Option.some.inj h).symm⟩
      | succ k =>
        obtain ⟨M, e', stop', ss', N, rfl, hM, hx⟩ := ih h
        exact ⟨.type e stop ss :: M, e', stop', ss', N, rfl, congrArg (· + 1) hM, hx⟩

theorem getElem?_endings (file : String) (M N : List Leg) (e : TypeExpr) (stop : Position) (ss : List Step) :
    (endings file (M ++ .type e stop ss :: N))[(endings file M).length]? = some (e.ending file stop) := by
  rw [endings_append, List.getElem?_append_right (Nat.le_refl _), Nat.sub_self]
  rfl

theorem endings_length_of_like (h : List.Forall₂ Leg.Like J J') :
    (endings file J').length = (endings file J).length := by
  induction h with
  | nil => rfl
  | cons hj _ ih =>
    cases hj with
    | token => exact ih
    | type => exact congrArg (· + 1) ih

/-- The steps of legs are made anew in legs like these. -/
theorem Tours.again (h : Tours a J b) (hwalk : Walk a' (stepsOf J) b') (hb : b'.head? = b.head?) :
    ∃ J', Tours a' J' b' ∧ List.Forall₂ Leg.Like J J' ∧ stepsOf J' = stepsOf J := by
  induction h generalizing a' with
  | nil =>
    cases hwalk
    exact ⟨[], .nil, .nil, rfl⟩
  | token ht hs hb' htours ih =>
    obtain _ | ⟨ht', hs', hfetch, hwalk⟩ := hwalk
    obtain ⟨J', htours', hlike, hsteps⟩ := ih hwalk hb
    exact ⟨_, .token ht' hs' hfetch htours', .cons .token hlike, congrArg (_ :: ·) hsteps⟩
  | @type _ c _ e stop ss J he hover hend hstop htours ih =>
    rw [stepsOf_cons] at hwalk
    obtain ⟨c', hover', hwalk⟩ := hwalk.split
    obtain ⟨J', htours', hlike, hsteps⟩ := ih hwalk hb
    obtain ⟨t, ht⟩ : ∃ t, c'.last = some t := by
      obtain ⟨s, us, rfl, -⟩ := he.exists_name
      exact hover'.exists_last
    have hhead : c'.head? = c.head? := by rw [hwalk.head, htours.walk.head, hb]
    refine ⟨.type e t.stop ss :: J', .type he hover' (hhead ▸ hend) (by rw [ht]; rfl) htours', .cons .type hlike, ?_⟩
    rw [stepsOf_cons, stepsOf_cons, hsteps]
    rfl

theorem TypeExpr.Steps.head_of_walk {e : TypeExpr} {ss : List Step} (he : e.Steps ss) (h : Walk a ss b) :
    a.head? = some .name := by
  obtain ⟨s, us, rfl, -⟩ := he.exists_name
  exact h.head

/-! ### Annotations in a source -/

/-- The type of the field is what is read in the text at this place of the source, in the tokens, which stand one after
another from its start to its end. There the span of the field ends. -/
structure Field.Annotated (file pre text post : String) (ts : List Token) (f : Field) : Prop where
  read : ∃ start us a b n, Lookahead.fetch .items none (.ofString (pre ++ text ++ post)) = .ok start ∧
    Takes start us a ∧ Takes a ts b ∧ Parse.typeExpr n a = .ok (f.type, b)
  spread : Spread (Position.past {} pre.toList) text.toList ts
  ends : ∃ start : Position, f.span = some (start.spanTo file (Position.past {} (pre ++ text).toList))

theorem Field.of_ending {f : Field} {e : TypeExpr} {stop : Position} (h : f.ending = e.ending file stop) :
    f.type = e ∧ ∃ start : Position, f.span = some (start.spanTo file stop) := by
  obtain ⟨htype, hspan⟩ := Prod.mk.inj h
  obtain ⟨s, hs, hending⟩ := Option.map_eq_some_iff.mp hspan
  refine ⟨htype, ⟨s.line, s.column⟩, hs.trans (congrArg some ?_)⟩
  calc s = { s.ending with line := s.line, column := s.column } := rfl
    _ = _ := by rw [hending]; rfl

theorem Reading.annotated {pre text post : String} {us ss vs : List Step} {e : TypeExpr} {stop : Position} {f : Field}
    (R : Reading pre text post us ss vs) (he : e.Steps ss) (hend : Site.typeEnd.admits R.back.head? = true)
    (hstop : R.back.last.map Token.stop = some stop) (hf : f.ending = e.ending file stop) :
    f.Annotated file pre text post R.tokens := by
  obtain ⟨htype, hspan⟩ := f.of_ending hf
  obtain ⟨ts, hts, -⟩ := R.before.takes
  obtain ⟨_, hread, rfl⟩ := Parse.typeExpr_retraces (ss.length + 2) he (Nat.le_refl _) hend R.front R.back R.middle rfl
  refine ⟨⟨R.start, ts, R.front, R.back, _, R.fetched, hts, R.takes, htype ▸ hread⟩, R.spread, ?_⟩
  rwa [← Option.some.inj (R.stop.symm.trans hstop)] at hspan

/-! ### Loaded files -/

variable {limits : Limits} {source : String} {f : SourceFile} {fl : Field}

/-- A source that is read is read in legs, and another one that is read in legs like these is read as the same file but
for places. -/
theorem legs_of_parseSource (h : parseSource file source = .ok f) : ∃ start J ending,
    Lookahead.fetch .items none (.ofString source) = .ok start ∧ Tours start J ending ∧
      f.fields.map Field.ending = endings file J ∧ ∀ {source' start' J' ending'},
        Lookahead.fetch .items none (.ofString source') = .ok start' → Tours start' J' ending' →
          List.Forall₂ Leg.Like J J' → ending'.head? = ending.head? → (stepsOf J').length ≤ source'.length →
            ∃ f', parseSource file source' = .ok f' ∧ f'.unspanned = f.unspanned ∧
              f'.fields.map Field.ending = endings file J' := by
  obtain ⟨start, ending, hstart, hitems⟩ := parseSource_eq_ok.mp h
  have hreplays : Replays file 2 0 (fun _ => True) Replays.fileView [] (fun _ : Unit => [])
      (Parse.items file (source.length + 2) [] []) fun _ m => Parse.items file m [] [] :=
    .congr_endings (.items (Nat.le_refl 2) (fun _ => rfl) fun _ => rfl) rfl fun _ => rfl
  obtain ⟨J, hJ, -, hends, hagain⟩ := hreplays start f ending ⟨_, _, _, hstart⟩ trivial hitems
  refine ⟨start, J, ending, hstart, hJ, hends, fun {source' start' J' ending'} hstart' hJ' hlike hhead hlength => ?_⟩
  obtain ⟨f', hitems', hkept, hends'⟩ := hagain () J' start' ending' _ hlike hJ' hhead (Nat.add_le_add_right hlength 2)
  exact ⟨f', parseSource_eq_ok.mpr ⟨start', ending', hstart', hitems'⟩, hkept, hends'⟩

/-- The type of every field of a file that is loaded is written in the source. With its rendered text instead, the
source is read as the same file but for places, and is loaded unless it is too long now. The text is then that of the
same field, whose type renders as it, in the tokens that were written in canonical form. -/
theorem loadSource_render (h : loadSource limits file source = .ok f) (hfl : f.fields[k]? = some fl) :
    ∃ pre text post ts, source = pre ++ text ++ post ∧ fl.Annotated file pre text post ts ∧ ∃ f' fl' ts',
      parseSource file (pre ++ fl.type.render ++ post) = .ok f' ∧
      ((pre ++ fl.type.render ++ post).length ≤ limits.maxSourceSize →
        loadSource limits file (pre ++ fl.type.render ++ post) = .ok f') ∧
      f'.unspanned = f.unspanned ∧ f'.fields[k]? = some fl' ∧
      fl'.Annotated file pre fl.type.render post ts' ∧ fl'.type.render = fl.type.render ∧
      ts'.map Token.lexeme = canonicalLexemes (ts.map Token.lexeme) := by
  obtain ⟨-, hparse, hcount⟩ := loadSource_eq_ok.mp h
  obtain ⟨start, J, ending, hstart, hJ, hends, hagain⟩ := legs_of_parseSource (parseSource_eq_ok.mpr hparse)
  have hleg : (endings file J)[k]? = some fl.ending := by rw [← hends, List.getElem?_map, hfl]; rfl
  obtain ⟨M, e, stop, ss, N, rfl, rfl, hending⟩ := exists_type_leg hleg
  obtain rfl : fl.type = e := (Field.of_ending hending).1
  obtain ⟨front, hbefore, hrest⟩ := hJ.split
  obtain _ | _ | ⟨he, hover, hend, hstop, hafter⟩ := hrest
  obtain ⟨_, _, rfl, -⟩ := id he.exists_name
  obtain ⟨pre, text, post, rfl, R, rfl, rfl, rfl, rfl⟩ := exists_reading hstart hbefore.walk hover hafter.walk
  refine ⟨pre, text, post, R.tokens, rfl, R.annotated he hend hstop hending, ?_⟩
  obtain ⟨ss', hss', hcanonical, R', hback, hending'⟩ := R.render he hend
  -- the legs before and behind stay as they are
  have hfront : R'.front.head? = R.front.head? := (hss'.head_of_walk R'.middle).trans (he.head_of_walk R.middle).symm
  obtain ⟨M', hM', hlikeM, hstepsM⟩ := hbefore.again R'.before hfront
  obtain ⟨N', hN', hlikeN, hstepsN⟩ := hafter.again R'.after hending'
  have htours := hM'.append (.type hss' R'.middle (hback ▸ hend) R'.stop hN')
  obtain ⟨f', hparse', hunspanned, hends'⟩ := hagain R'.fetched htours
    (List.rel_append hlikeM (.cons .type hlikeN)) hending'
    (by rw [stepsOf_append, stepsOf_cons, hstepsM, hstepsN]; exact R'.length_le)
  obtain ⟨fl', hfl', hending''⟩ : ∃ fl', f'.fields[(endings file M).length]? = some fl' ∧
      fl'.ending = fl.type.ending file (Position.past {} (pre ++ fl.type.render).toList) := by
    rw [← Option.map_eq_some_iff, ← List.getElem?_map, hends', ← endings_length_of_like hlikeM]
    exact getElem?_endings file ..
  refine ⟨f', fl', R'.tokens, hparse', fun hsize => ?_, hunspanned, hfl',
    R'.annotated hss' (hback ▸ hend) R'.stop hending'', ?_, ?_⟩
  · refine loadSource_eq_ok.mpr ⟨hsize, parseSource_eq_ok.mp hparse', ?_⟩
    rwa [← List.length_eq_zero_iff, SourceFile.length_of_unspanned hunspanned, List.length_eq_zero_iff]
  · rw [(Field.of_ending hending'').1]
  · have hlexemes := hcanonical []
    rw [List.append_nil] at hlexemes
    rw [R'.lexemes, R.lexemes, hlexemes]
    exact (List.append_nil _).symm

/-- A source with double colons, last commas, comments, strings and bracketed lists in its types. -/
def typedSource : String :=
  "enum E \x7b A(x), B \x7b a: m::C[dict[str,[k.l,],] /* c */, Literal[\"a]\",], ...,] |None, b: F[[], \n T] \x7d \x7d"

/-- Its second field is of a type of many parts. -/
theorem typedSource_renders : ∃ f fl, loadSource {} "f" typedSource = .ok f ∧ f.fields[1]? = some fl ∧
    fl.type.render = "m.C[dict[str, [k.l]], Literal[\"a]\"], ...] | None" ∧
    ∃ pre text post ts, typedSource = pre ++ text ++ post ∧ fl.Annotated "f" pre text post ts ∧ ∃ f' fl' ts',
      parseSource "f" (pre ++ fl.type.render ++ post) = .ok f' ∧
      ((pre ++ fl.type.render ++ post).length ≤ ({} : Limits).maxSourceSize →
        loadSource {} "f" (pre ++ fl.type.render ++ post) = .ok f') ∧
      f'.unspanned = f.unspanned ∧ f'.fields[1]? = some fl' ∧
      fl'.Annotated "f" pre fl.type.render post ts' ∧ fl'.type.render = fl.type.render ∧
      ts'.map Token.lexeme = canonicalLexemes (ts.map Token.lexeme) := by
  have hrender : (loadSource {} "f" typedSource).toOption.bind (fun f => f.fields[1]?.map fun fl => fl.type.render) =
      some "m.C[dict[str, [k.l]], Literal[\"a]\"], ...] | None" := by
    decide +kernel
  cases hload : loadSource {} "f" typedSource with
  | error e =>
    rw [hload] at hrender
    cases hrender
  | ok f =>
    rw [hload] at hrender
    obtain ⟨fl, hfl, hrender⟩ := Option.map_eq_some_iff.mp hrender
    exact ⟨f, fl, rfl, hfl, hrender, loadSource_render hload hfl⟩

end TypedErrors
