import TypedErrors.Proofs.Source.Outer
import TypedErrors.Proofs.Source.Types

/-! # Printed declarations are read back

Fields, variants, declarations and imports, each read to its end and the same but for spans. -/

namespace TypedErrors

variable {file : String} {n : Nat} {ls rest : List Lexeme}

namespace Site
open Terminal

/-- A visibility or the name of what it is of. -/
def member : Site := ⟨[.name, pubWord], false⟩

/-- A visibility or a keyword. -/
def declared : Site := ⟨[enumWord, pubWord, structWord, unionWord], false⟩

/-- After an item of a list. -/
def listEnd (closer : Terminal) : Site := ⟨[comma, closer], false⟩

end Site

namespace Parse

/-! ### Lists -/

/-- The sites of a list agree: at `items` stands an item or the closer, and `next` is what may follow an item. -/
structure ListSites (closer : Terminal) (starts items next : Site) : Prop where
  start : starts.Within items
  closer_start : closer ∉ starts.accepts
  closer_items : Site.Within ⟨[closer], false⟩ items
  next : Site.Within (.listEnd closer) next
  closer_name : closer ≠ .name
  closer_comma : closer ≠ .comma

variable {α β : Type} {item : Parse α} {f : α → β} {Prints : α → List Lexeme → Prop} {closer : Terminal}
  {starts items next : Site}

theorem ListSites.follows {xs : List α} (hsites : ListSites closer starts items next)
    (hstart : ∀ {x ls rest}, Prints x ls → Fits starts (ls ++ rest)) (h : PrintsList Prints xs ls) :
    Follows items (ls ++ closer.lexeme :: rest) := by
  cases h with
  | nil =>
    have hclose : Fits ⟨[closer], false⟩ (closer.lexeme :: rest) :=
      .lexeme (List.mem_singleton_self _) hsites.closer_name
    exact hclose.follows hsites.closer_items
  | last hx => exact (hstart hx).follows hsites.start
  | cons hx =>
    rw [List.append_assoc]
    exact (hstart hx).follows hsites.start

theorem commaList_yields {xs : List α} (hsites : ListSites closer starts items next)
    (hstart : ∀ {x ls rest}, Prints x ls → Fits starts (ls ++ rest))
    (hitem : ∀ {x ls rest}, Prints x ls → ls.length + 2 ≤ n → Fits (.listEnd closer) rest →
      Yields item (ls ++ rest) rest (f · = f x))
    (h : PrintsList Prints xs ls) : ∀ {m : Nat} {acc : List α}, ls.length + 1 ≤ m → ls.length + 2 ≤ n →
      Yields (commaList item closer items next m acc) (ls ++ closer.lexeme :: rest) (closer.lexeme :: rest)
        (·.map f = (acc.reverse ++ xs).map f) := by
  have hclose : ∀ {site : Site}, closer ∈ site.accepts → Fits site (closer.lexeme :: rest) := fun hmem =>
    .lexeme hmem hsites.closer_name
  induction h with
  | nil =>
    intro m acc hm hn
    obtain ⟨m, rfl⟩ : ∃ k, m = k + 1 := ⟨m - 1, by omega⟩
    refine .bind_peek ?_
    rw [if_pos (by rfl)]
    exact .pure (by simp)
  | @last ls x hx =>
    intro m acc hm hn
    obtain ⟨m, rfl⟩ : ∃ k, m = k + 1 := ⟨m - 1, by omega⟩
    have hend : Fits (.listEnd closer) (closer.lexeme :: rest) := hclose (by simp [Site.listEnd])
    refine .bind_peek ?_
    rw [if_neg ((hstart hx).head_ne hsites.closer_start)]
    refine .bind (hitem hx hn hend) fun v hv => .bind_check (hend.follows hsites.next) (.bind_peek ?_)
    split
    · next hcomma => exact absurd (Option.some.inj hcomma) hsites.closer_comma
    · exact .pure (by simp [hv])
  | @cons ls ms x xs hx h ih =>
    intro m acc hm hn
    obtain ⟨m, rfl⟩ : ∃ k, m = k + 1 := ⟨m - 1, by omega⟩
    simp only [List.length_append, List.length_cons] at hm hn
    rw [List.append_assoc, List.cons_append]
    have hcomma : Fits (.listEnd closer) (Terminal.comma.lexeme :: (ms ++ closer.lexeme :: rest)) :=
      .lexeme (by simp [Site.listEnd]) (by decide)
    refine .bind_peek ?_
    rw [if_neg ((hstart hx).head_ne hsites.closer_start)]
    refine .bind (hitem hx (by omega) hcomma) fun v hv => .bind_check (hcomma.follows hsites.next) (.bind_peek ?_)
    refine .bind_shift (hsites.follows hstart h) fun _ _ => ?_
    refine (ih (by omega) (by omega)).mono fun vs hvs => ?_
    rw [hvs]
    simp [hv]

/-! ### Fields -/

theorem ofList_map (f : α → β) (xs : List α) : (Fields.ofList xs).map f = .ofList (xs.map f) := by
  simp [Fields.ofList, Fields.map, List.zipIdx_map]

theorem namedField_fits {p : String × Field} (h : PrintsNamedField p ls) : Fits .fieldNext (ls ++ rest) := by
  obtain ⟨houter, hvis, hs, -, -⟩ := h
  simp only [List.append_assoc]
  exact houter.fits (by decide) (by decide) (hvis.fits (by decide) (.name hs (by decide)))

theorem unnamedField_fits {f : Field} (h : PrintsUnnamedField f ls) : Fits .fieldNext (ls ++ rest) := by
  obtain ⟨houter, hvis, -, htype⟩ := h
  simp only [List.append_assoc]
  exact houter.fits (by decide) (by decide) (hvis.fits (by decide) (htype.fits.mono (by decide)))

theorem namedField_yields {p : String × Field} (h : PrintsNamedField p ls) (hn : ls.length + 2 ≤ n)
    (hrest : Fits .typeEnd rest) :
    Yields (namedField file n) (ls ++ rest) rest fun q => (q.1, q.2.unspanned) = (p.1, p.2.unspanned) := by
  obtain @⟨s, f, ls, vs, ts, houter, hvis, hs, hname, htype⟩ := h
  simp only [List.length_append, List.length_cons] at hn
  simp only [List.append_assoc, List.cons_append]
  have hident : Fits .name (.name s :: Terminal.colon.lexeme :: (ts ++ rest)) := .name hs (by decide)
  have hmember : Fits .member (vs ++ .name s :: Terminal.colon.lexeme :: (ts ++ rest)) :=
    hvis.fits (by decide) (hident.mono (by decide))
  have hcolon : Fits .colonOnly (Terminal.colon.lexeme :: (ts ++ rest)) := .lexeme (by decide) (by decide)
  refine .bind_here fun start => ?_
  refine .bind (outer_yields houter (hmember.mono (by decide)) (by omega)) fun ⟨attrs, docs⟩ ⟨hattrs, hdocs⟩ => ?_
  refine .bind_check (hmember.follows (by decide)) ?_
  refine .bind (visibility_yields hvis (by omega) (.inl rfl) hident) fun v hv => ?_
  refine .bind_shift (hcolon.follows (by decide)) fun t ht => ?_
  refine .bind_shift (htype.fits.follows (by decide)) fun _ _ => ?_
  refine .bind (typeExpr_yields n htype (by omega) hrest) fun e he => .bind_there fun stop => .pure ?_
  have htext : t.text = s := congrArg Lexeme.text ht
  simp only [Field.unspanned, htext, he, hv, hname, List.reverse_nil, List.nil_append] at hattrs hdocs ⊢
  rw [hattrs, hdocs]

theorem unnamedField_yields {f : Field} (h : PrintsUnnamedField f ls) (hn : ls.length + 2 ≤ n)
    (hrest : Fits .typeEnd rest) :
    Yields (unnamedField file n) (ls ++ rest) rest fun g => g.unspanned = f.unspanned := by
  obtain @⟨ls, vs, ts, houter, hvis, hname, htype⟩ := h
  simp only [List.length_append] at hn
  simp only [List.append_assoc]
  have hident : Fits .name (ts ++ rest) := htype.fits
  have hmember : Fits .member (vs ++ (ts ++ rest)) := hvis.fits (by decide) (hident.mono (by decide))
  refine .bind_here fun start => ?_
  refine .bind (outer_yields houter (hmember.mono (by decide)) (by omega)) fun ⟨attrs, docs⟩ ⟨hattrs, hdocs⟩ => ?_
  refine .bind_check (hmember.follows (by decide)) ?_
  refine .bind (visibility_yields hvis (by omega) (.inl rfl) hident) fun v hv => ?_
  refine .bind (typeExpr_yields n htype (by omega) hrest) fun e he => .bind_there fun stop => .pure ?_
  simp only [Field.unspanned, he, hv, hname, List.reverse_nil, List.nil_append] at hattrs hdocs ⊢
  rw [hattrs, hdocs]

theorem namedFields_yields {fs : List (String × Field)} (h : PrintsFields (.named fs) ls) (hn : ls.length ≤ n)
    (hrest : Follows .namedFieldsNext rest) :
    Yields (namedFields file n) (ls ++ rest) rest fun gs =>
      gs.map Field.unspanned = (Fields.named fs).map Field.unspanned := by
  cases h with
  | @named ls _ h =>
    simp only [List.length_cons, List.length_append, List.length_nil] at hn
    simp only [List.cons_append, List.append_assoc, List.nil_append]
    have hsites : ListSites .rightBrace .fieldNext .namedFields .braceList := by constructor <;> decide
    have hstart : ∀ {p ls rest}, PrintsNamedField p ls → Fits .fieldNext (ls ++ rest) := namedField_fits
    refine .bind_shift (hsites.follows hstart h) fun _ _ => ?_
    refine .bind (commaList_yields (f := fun p => (p.1, p.2.unspanned)) hsites hstart
      (fun hp hlen hend => namedField_yields hp hlen (hend.mono (by decide))) h (by omega) (by omega)) fun gs hgs => ?_
    exact .bind_shift hrest fun _ _ => .pure (congrArg Fields.named hgs)

theorem unnamedFields_yields {fs : List (Nat × Field)} (h : PrintsFields (.unnamed fs) ls) (hn : ls.length ≤ n)
    (hrest : Follows .unnamedFieldsNext rest) :
    Yields (unnamedFields file n) (ls ++ rest) rest fun gs =>
      gs.map Field.unspanned = (Fields.unnamed fs).map Field.unspanned := by
  generalize hall : Fields.unnamed fs = all at h
  cases h with
  | unit | named => cases hall
  | @unnamed ls fs' h =>
    simp only [List.length_cons, List.length_append, List.length_nil] at hn
    simp only [List.cons_append, List.append_assoc, List.nil_append]
    have hsites : ListSites .rightParen .fieldNext .unnamedFields .parenList := by constructor <;> decide
    have hstart : ∀ {f ls rest}, PrintsUnnamedField f ls → Fits .fieldNext (ls ++ rest) := unnamedField_fits
    refine .bind_shift (hsites.follows hstart h) fun _ _ => ?_
    refine .bind (commaList_yields hsites hstart
      (fun hp hlen hend => unnamedField_yields hp hlen (hend.mono (by decide))) h (by omega) (by omega))
      fun gs hgs => .bind_shift hrest fun _ _ => .pure ?_
    rw [ofList_map, ofList_map, hgs]
    rfl

/-! ### Variants -/

theorem fields_fits {fs : Fields Field} (h : PrintsFields fs ls) (hrest : Fits .braceList rest) :
    Fits .variantRest (ls ++ rest) := by
  cases h with
  | unit => exact hrest.mono (by decide)
  | named | unnamed => exact .lexeme (by decide) (by decide)

theorem variant_fits {v : Variant} (h : v.Prints ls) : Fits .variantNext (ls ++ rest) := by
  obtain ⟨houter, hs, -⟩ := h
  rw [List.append_assoc]
  exact houter.fits (by decide) (by decide) (.name hs (by decide))

theorem variant_yields {v : Variant} (h : v.Prints ls) (hn : ls.length + 2 ≤ n) (hrest : Fits .braceList rest) :
    Yields (variant file n) (ls ++ rest) rest fun w => w.unspanned = v.unspanned := by
  obtain @⟨ls, ms, houter, hs, hfields⟩ := h
  simp only [List.length_append, List.length_cons] at hn
  simp only [List.append_assoc, List.cons_append]
  have hident : Fits .name (.name v.ident :: (ms ++ rest)) := .name hs (by decide)
  have hnext : Fits .variantRest (ms ++ rest) := fields_fits hfields hrest
  refine .bind (outer_yields houter (hident.mono (by decide)) (by omega)) fun ⟨attrs, docs⟩ ⟨hattrs, hdocs⟩ => ?_
  refine .bind_check (hident.follows (by decide)) ?_
  refine .bind_shift (hnext.follows (by decide)) fun t ht => .bind_peek ?_
  have hend : ∀ fs : Fields Field, fs.map Field.unspanned = v.fields.map Field.unspanned →
      Yields (pure ({ ident := t.text, fields := fs, attrs, docs, span := t.span file } : Variant)) rest rest
        fun w => w.unspanned = v.unspanned := by
    intro fs hfs
    have htext : t.text = v.ident := congrArg Lexeme.text ht
    refine .pure ?_
    simp only [Variant.unspanned, htext, hfs, List.reverse_nil, List.nil_append] at hattrs hdocs ⊢
    rw [hattrs, hdocs]
  generalize v.fields = fs at hfields hend
  cases hfields with
  | unit =>
    split
    · next hbrace => exact absurd hbrace (hrest.head_ne (by decide))
    · next hparen => exact absurd hparen (hrest.head_ne (by decide))
    · exact .bind (P := (· = .unit)) (.pure rfl) fun fs hfs => hend fs (by rw [hfs])
  | named h => exact .bind (namedFields_yields (.named h) (by omega) (hrest.follows (by decide))) hend
  | unnamed h => exact .bind (unnamedFields_yields (.unnamed h) (by omega) (hrest.follows (by decide))) hend

/-! ### Declarations -/

theorem exists_leftBrace {fs : List (String × Field)} (h : PrintsFields (.named fs) ls) :
    ∃ more, ls = Terminal.leftBrace.lexeme :: more := by
  cases h
  exact ⟨_, rfl⟩

theorem exists_leftParen {fs : List (Nat × Field)} (h : PrintsFields (.unnamed fs) ls) :
    ∃ more, ls = Terminal.leftParen.lexeme :: more := by
  generalize hall : Fields.unnamed fs = all at h
  cases h with
  | unit | named => cases hall
  | unnamed => exact ⟨_, rfl⟩

theorem shape_fits {s : String} {shape' : Shape} (h : shape'.Prints s ls) : Fits .keyword (ls ++ rest) := by
  cases h <;> exact .lexeme (by decide) (by decide)

theorem shape_yields {s : String} {shape' : Shape} (h : shape'.Prints s ls) (hs : Identifier s) (hn : ls.length ≤ n)
    (hrest : Fits .items rest) :
    Yields (shape file n) (ls ++ rest) rest fun p => p.1.text = s ∧ p.2.unspanned = shape'.unspanned := by
  have hident : ∀ {more}, Follows .name (.name s :: more) := fun {more} =>
    Fits.follows (s := .name) (.name hs (by decide)) (by decide)
  have htext : ∀ {t : Token}, t.lexeme = .name s → t.text = s := fun ht => congrArg Lexeme.text ht
  cases h with
  | @struct ls fs h =>
    simp only [List.length_cons] at hn
    rw [List.cons_append, List.cons_append]
    refine .bind_peek (.bind_shift hident fun _ _ => ?_)
    cases h with
    | unit =>
      have hsemicolon : Fits .semicolonOnly (Terminal.semicolon.lexeme :: rest) := .lexeme (by decide) (by decide)
      refine .bind_shift (hsemicolon.follows (by decide)) fun t ht => .bind_peek ?_
      exact .bind_shift (hrest.follows (by decide)) fun _ _ => .pure ⟨htext ht, rfl⟩
    | named h =>
      obtain ⟨more, rfl⟩ := exists_leftBrace h
      have hbrace : Fits .leftBraceOnly (Terminal.leftBrace.lexeme :: (more ++ rest)) := .lexeme (by decide) (by decide)
      refine .bind_shift (hbrace.follows (by decide)) fun t ht => .bind_peek ?_
      refine .bind (namedFields_yields h (by omega) (hrest.follows (by decide))) fun gs hgs => ?_
      exact .bind_check (hrest.follows (by decide)) (.pure ⟨htext ht, congrArg Shape.struct hgs⟩)
    | @unnamed ls fs h =>
      obtain ⟨more, rfl⟩ := exists_leftParen h
      rw [List.length_append, List.length_cons] at hn
      simp only [List.append_assoc, List.cons_append, List.nil_append]
      have hparen : Fits ⟨[.leftParen], false⟩ (Terminal.leftParen.lexeme ::
          (more ++ Terminal.semicolon.lexeme :: rest)) := .lexeme (by decide) (by decide)
      have hsemicolon : Fits .semicolonOnly (Terminal.semicolon.lexeme :: rest) := .lexeme (by decide) (by decide)
      refine .bind_shift (hparen.follows (by decide)) fun t ht => .bind_peek ?_
      refine .bind (unnamedFields_yields h (by rw [List.length_cons]; omega) (hsemicolon.follows (by decide)))
        fun gs hgs => .bind_check (hsemicolon.follows (by decide)) ?_
      exact .bind_shift (hrest.follows (by decide)) fun _ _ => .pure ⟨htext ht, congrArg Shape.struct hgs⟩
  | @enum ls vs h =>
    simp only [List.length_cons, List.length_append, List.length_nil] at hn
    simp only [List.cons_append, List.append_assoc, List.nil_append]
    have hsites : ListSites .rightBrace .variantNext .variants .braceList := by constructor <;> decide
    have hstart : ∀ {v ls rest}, Variant.Prints v ls → Fits .variantNext (ls ++ rest) := variant_fits
    have hbrace : Fits .leftBraceOnly (Terminal.leftBrace.lexeme :: (ls ++ Terminal.rightBrace.lexeme :: rest)) :=
      .lexeme (by decide) (by decide)
    refine .bind_peek (.bind_shift hident fun _ _ => .bind_shift (hbrace.follows (by decide)) fun t ht => ?_)
    refine .bind_shift (hsites.follows hstart h) fun _ _ => ?_
    refine .bind (commaList_yields hsites hstart
      (fun hv hlen hend => variant_yields hv hlen (hend.mono (by decide))) h (by omega) (by omega)) fun vs' hvs => ?_
    exact .bind_shift (hrest.follows (by decide)) fun _ _ => .pure ⟨htext ht, congrArg Shape.enum hvs⟩
  | union h =>
    simp only [List.length_cons] at hn
    obtain ⟨more, rfl⟩ := exists_leftBrace h
    have hbrace : Fits .leftBraceOnly (Terminal.leftBrace.lexeme :: (more ++ rest)) := .lexeme (by decide) (by decide)
    refine .bind_peek (.bind_shift hident fun _ _ => .bind_shift (hbrace.follows (by decide)) fun t ht => ?_)
    refine .bind (namedFields_yields h (by omega) (hrest.follows (by decide))) fun gs hgs => ?_
    exact .bind_check (hrest.follows (by decide)) (.pure ⟨htext ht, congrArg Shape.union hgs⟩)

theorem declaration_fits {d : Declaration} (h : d.Prints ls) : Fits .declarationNext (ls ++ rest) := by
  obtain ⟨houter, hvis, -, hshape⟩ := h
  simp only [List.append_assoc]
  exact houter.fits (by decide) (by decide) (hvis.fits (by decide) ((shape_fits hshape).mono (by decide)))

theorem declaration_yields {d : Declaration} (h : d.Prints ls) (hn : ls.length + 1 ≤ n) (hrest : Fits .items rest) :
    Yields (declaration file n) (ls ++ rest) rest fun e => e.unspanned = d.unspanned := by
  obtain @⟨ls, vs, ts, houter, hvis, hs, hshape⟩ := h
  simp only [List.length_append] at hn
  simp only [List.append_assoc]
  have hkeyword : Fits .keyword (ts ++ rest) := (shape_fits hshape)
  have hdeclared : Fits .declared (vs ++ (ts ++ rest)) := hvis.fits (by decide) (hkeyword.mono (by decide))
  refine .bind (outer_yields houter (hdeclared.mono (by decide)) (by omega)) fun ⟨attrs, docs⟩ ⟨hattrs, hdocs⟩ => ?_
  refine .bind_check (hdeclared.follows (by decide)) ?_
  refine .bind (visibility_yields hvis (by omega) (.inr rfl) hkeyword) fun v hv => ?_
  refine .bind (shape_yields hshape hs (by omega) hrest) fun p hp => ?_
  obtain ⟨t, shape'⟩ := p
  have ht : t.text = d.ident := hp.1
  have hshape' : shape'.unspanned = d.shape.unspanned := hp.2
  refine .pure ?_
  simp only [Declaration.unspanned, ht, hv, hshape', List.reverse_nil, List.nil_append] at hattrs hdocs ⊢
  rw [hattrs, hdocs]

theorem alias_fits {alias? : Option String} (h : PrintsAlias alias? ls) :
    Fits .importRest (ls ++ Terminal.semicolon.lexeme :: rest) := by
  cases h <;> exact .lexeme (by decide) (by decide)

theorem exists_useWord {i : Import} (h : i.Prints ls) : ∃ more, ls = Terminal.useWord.lexeme :: more := by
  obtain ⟨-, -⟩ := h
  exact ⟨_, rfl⟩

theorem import_yields {i : Import} (h : i.Prints ls) (hn : ls.length ≤ n) (hrest : Fits .items rest) :
    Yields (import_ file n) (ls ++ rest) rest fun j => j.unspanned = i.unspanned := by
  obtain @⟨ls, ms, hpath, halias⟩ := h
  simp only [List.length_cons, List.length_append, List.length_nil] at hn
  simp only [List.cons_append, List.append_assoc, List.nil_append]
  have hsemicolon : Fits .semicolonOnly (Terminal.semicolon.lexeme :: rest) := .lexeme (by decide) (by decide)
  have halias' : Fits .importRest (ms ++ Terminal.semicolon.lexeme :: rest) := alias_fits halias
  refine .bind_here fun start => .bind_shift (hpath.fits.follows (by decide)) fun _ _ => ?_
  refine .bind (path_yields hpath (by omega) (halias'.mono (by decide))) fun p hp => ?_
  refine .bind_check (halias'.follows (by decide)) (.bind_peek ?_)
  have hend : ∀ alias?, alias? = i.alias? → Yields (do
      let _ ← shift .items
      return { path := p, alias?, span := start.spanTo file (← there) } : Parse Import)
      (Terminal.semicolon.lexeme :: rest) rest fun j => j.unspanned = i.unspanned := by
    intro alias? ha
    refine .bind_shift (hrest.follows (by decide)) fun _ _ => .bind_there fun stop => .pure ?_
    rw [Import.unspanned, Import.unspanned, hp, ha]
  generalize i.alias? = alias? at halias hend
  cases halias with
  | none => exact .bind (P := (· = none)) (.pure rfl) hend
  | some hs =>
    have hname : Fits .name (.name _ :: Terminal.semicolon.lexeme :: rest) := .name hs (by decide)
    refine .bind_shift (hname.follows (by decide)) fun _ _ => ?_
    refine .bind_shift (hsemicolon.follows (by decide)) fun t ht => ?_
    exact .bind (P := (· = some _)) (.pure (congrArg (fun l => some (Lexeme.text l)) ht)) hend

/-! ### Files -/

theorem items_fits {is : List Import} {ds : List Declaration} (h : PrintsItems is ds ls) : Fits .items ls := by
  cases h with
  | nil => rfl
  | import_ hi =>
    obtain ⟨more, rfl⟩ := exists_useWord hi
    exact .lexeme (by decide) (by decide)
  | declaration hd => exact (declaration_fits hd).mono (by decide)

theorem items_yields {is : List Import} {ds : List Declaration} (h : PrintsItems is ds ls) :
    ∀ {n : Nat} {is' : List Import} {ds' : List Declaration}, ls.length + 2 ≤ n →
      Yields (Parse.items file n is' ds') ls [] fun f => f.unspanned = ⟨file,
        (is'.reverse ++ is).map Import.unspanned, (ds'.reverse ++ ds).map Declaration.unspanned⟩ := by
  induction h with
  | nil =>
    intro n is' ds' hn
    obtain ⟨n, rfl⟩ : ∃ m, n = m + 1 := ⟨n - 1, by omega⟩
    refine .bind_peek (.pure ?_)
    simp [SourceFile.unspanned]
  | @import_ ls ms i is ds hi h ih =>
    intro n is' ds' hn
    obtain ⟨n, rfl⟩ : ∃ m, n = m + 1 := ⟨n - 1, by omega⟩
    obtain ⟨more, rfl⟩ := exists_useWord hi
    simp only [List.length_append, List.length_cons] at hn
    refine .bind_peek (.bind (import_yields hi (by rw [List.length_cons]; omega) (items_fits h)) fun j hj => ?_)
    refine (ih (by omega)).mono fun f hf => ?_
    rw [hf]
    simp [hj]
  | @declaration ls ms d is ds hd h ih =>
    intro n is' ds' hn
    obtain ⟨n, rfl⟩ : ∃ m, n = m + 1 := ⟨n - 1, by omega⟩
    have hstart : ∀ {more}, Fits .declarationNext (ls ++ more) := declaration_fits hd
    have hpos : ls ≠ [] := by
      rintro rfl
      have hempty : Fits .declarationNext [] := hstart
      cases hempty
    have hlen := List.length_pos_iff.mpr hpos
    simp only [List.length_append] at hn
    refine .bind_peek ?_
    split
    · next hnone => exact absurd hnone (hstart.head_ne_none rfl)
    · next huse => exact absurd huse (hstart.head_ne (by decide))
    · refine .bind (declaration_yields hd (by omega) (items_fits h)) fun e he => ?_
      refine (ih (by omega)).mono fun f hf => ?_
      rw [hf]
      simp [he]

end Parse
end TypedErrors
