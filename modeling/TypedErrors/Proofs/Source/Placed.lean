import TypedErrors.Proofs.Source.Extents

/-! # Extents of imports and declarations

An import stands in the source in the words that it is written in. A declaration stands there with its blocks, the words
in front of its name, and behind it the fields or variants, and its span delimits the name. A file is its imports and
declarations one after another, with only space and comments around them. -/

namespace TypedErrors

variable {α : Type} {file : String} {source before text : List Char} {ts us : List Token} {t : Token}

/-! ### Behind a gap -/

/-- Where the tokens are laid behind a gap, `P` holds of the text from the gap to the last of them. -/
def Trails (source : List Char) (ts : List Token) (P : List Char → List Char → Prop) : Prop :=
  ∀ before gap text, Blank gap → Laid source (before ++ gap) text ts →
    ∃ front gap', gap ++ text = front ++ gap' ∧ Blank gap' ∧ P before front

section
variable {P Q : List Char → List Char → Prop}

theorem trails_nil (h : ∀ before, P before []) : Trails source [] P := by
  intro before gap text hgap hlaid
  cases hlaid
  exact ⟨[], gap, List.append_nil gap, hgap, h before⟩

theorem LaidAs.trails (h : LaidAs source ts P)
    (hPQ : ∀ before gap text, Blank gap → P (before ++ gap) text → Q before (gap ++ text)) : Trails source ts Q := by
  intro before gap text hgap hlaid
  obtain ⟨front, gap', rfl, hgap', hP⟩ := h _ _ hlaid
  exact ⟨gap ++ front, gap', (List.append_assoc ..).symm, hgap', hPQ _ _ _ hgap hP⟩

theorem Trails.mono (h : Trails source ts P) (hPQ : ∀ before text, P before text → Q before text) :
    Trails source ts Q := by
  intro before gap text hgap hlaid
  obtain ⟨front, gap', heq, hgap', hP⟩ := h before gap text hgap hlaid
  exact ⟨front, gap', heq, hgap', hPQ _ _ hP⟩

/-- Behind what trails comes one more token. -/
theorem Trails.closed (h : Trails source us P) : Trails source (us ++ [t])
    fun before text => ∃ front gap, text = front ++ (gap ++ t.text.toList) ∧ Blank gap ∧ P before front := by
  intro before gap text hgap hlaid
  obtain ⟨text, rest, rfl, htext, hrest⟩ := hlaid.append
  obtain ⟨front, gap', heq, hgap', hP⟩ := h _ _ _ hgap htext
  obtain ⟨_, gap'', rfl, hgap'', rfl⟩ := laidAs_token _ _ hrest
  refine ⟨front ++ (gap' ++ t.text.toList), gap'', ?_, hgap'', front, gap', rfl, hgap', hP⟩
  rw [← List.append_assoc, heq]
  simp only [List.append_assoc]

end

/-! ### Lists in brackets -/

section
variable {Stands : List Char → List Char → α → Prop} {xs : List α}

/-- The tokens of things in brackets are laid as the things between the brackets. -/
theorem trails_bracketed {opener closer : Token} {c d : Char} (hopener : opener.text.toList = [c])
    (hcloser : closer.text.toList = [d]) (h : ∀ before text, Laid source before text us → Within Stands before text xs) :
    Trails source (opener :: (us ++ [closer])) fun before text => ∃ gap inner,
      text = gap ++ c :: (inner ++ [d]) ∧ Blank gap ∧ Within Stands (before ++ (gap ++ [c])) inner xs := by
  intro before gap text hgap hlaid
  obtain _ | @⟨_, space, _, _, _, -, -, -, -, hlaid⟩ := hlaid
  obtain ⟨inner, rest, rfl, hinner, hrest⟩ := hlaid.append
  obtain ⟨_, gap', rfl, hgap', rfl⟩ := laidAs_token _ _ hrest
  refine ⟨gap ++ c :: ((space ++ inner) ++ [d]), gap', ?_, hgap', gap, space ++ inner, rfl, hgap, .prepend ?_⟩
  · simp [hopener, hcloser]
  · refine h _ _ ?_
    simpa [hopener] using hinner

namespace Parse

variable (source)

/-- Behind the items the closing bracket is ahead. -/
theorem commaList_derives {item : Parse α} {closer : Terminal} {items : Site}
    (hitem : ∀ ahead, Derives [] ahead item fun ts _ x => LaidAs source ts (Stands · · x)) :
    ∀ (n : Nat) (acc : List α) (ahead : Option Terminal),
      Derives [] ahead (commaList item closer items ⟨[.comma, closer], false⟩ n acc) fun ts k xs => k = some closer ∧
        ∃ more, xs = acc.reverse ++ more ∧ ∀ before text, Laid source before text ts → Within Stands before text more
  | 0, _, _ => .exhausted
  | n + 1, acc, ahead => by
    refine .bind_peek ?_
    split
    · next hclose => exact .pure ⟨hclose, [], (List.append_nil _).symm, fun _ _ _ => .nil trivial⟩
    refine .bind_part (hitem _) fun us k x hx => .bind_check fun hadmits => .bind_peek ?_
    split
    · refine .bind_shift fun comma _ _ _ _ => .part (commaList_derives hitem n (x :: acc) _) ?_
      rintro vs k _ ⟨hk, more, rfl, hmore⟩
      refine ⟨hk, x :: more, by simp, fun before text hlaid => ?_⟩
      rw [List.nil_append, List.append_assoc] at hlaid
      obtain ⟨front, gap, rest, rfl, -, hstands, hrest⟩ := hx.split hlaid
      obtain _ | ⟨-, -, -, -, hrest⟩ := hrest
      -- the comma belongs to what is between the items
      refine .cons hstands (.prepend (.prepend ?_))
      simpa only [List.append_assoc] using hmore _ _ hrest
    · next hcomma =>
      refine .pure ⟨ahead_of_pair hadmits hcomma, [x], by simp, fun before text hlaid => ?_⟩
      obtain ⟨front, gap, rfl, -, hstands⟩ := hx _ _ hlaid
      exact .cons hstands (.nil trivial)

/-- Things in brackets, with a gap in front. -/
theorem bracketed_derives {β : Type} {item : Parse α} {opener closer : Terminal} {first items next : Site} {n : Nat}
    {f : List α → β} {c d : Char} (hitem : ∀ ahead, Derives [] ahead item fun ts _ x => LaidAs source ts (Stands · · x))
    (hopener : opener.symbol?.map String.toList = some [c]) (hcloser : closer.symbol?.map String.toList = some [d]) :
    Derives [] (some opener) (do
      let _ ← shift first
      let xs ← commaList item closer items ⟨[.comma, closer], false⟩ n []
      let _ ← shift next
      return f xs) fun ts _ y => ∃ xs, y = f xs ∧ Trails source ts fun before text => ∃ gap inner,
        text = gap ++ c :: (inner ++ [d]) ∧ Blank gap ∧ Within Stands (before ++ (gap ++ [c])) inner xs := by
  refine .bind_shift fun t _ ht hspelling _ => .bind_part (commaList_derives source hitem n [] _) ?_
  rintro us _ xs ⟨rfl, _, rfl, hxs⟩
  refine .bind_shift fun u _ hu hspelling' _ => .pure ⟨_, rfl, ?_⟩
  obtain ⟨s, hs, hc⟩ := Option.map_eq_some_iff.mp hopener
  obtain ⟨s', hs', hd⟩ := Option.map_eq_some_iff.mp hcloser
  have ht : t.text.toList = [c] := by rw [text_of_terminal s (.inl hs) ht hspelling, hc]
  have hu : u.text.toList = [d] := by rw [text_of_terminal s' (.inl hs') hu hspelling', hd]
  have h := trails_bracketed ht hu hxs
  simpa using h

end Parse
end

/-! ### Fields and variants -/

/-- The text behind a name is the fields, with the brackets around them. -/
inductive Fields.Stands (file : String) (source before : List Char) : List Char → Fields Field → Prop
  | unit : Fields.Stands file source before [] .unit
  | named {gap inner : List Char} {items : List (String × Field)} (hgap : Blank gap)
      (h : Within (Field.Stands file source) (before ++ (gap ++ ['{'])) inner (items.map (·.2))) :
      Fields.Stands file source before (gap ++ '{' :: (inner ++ ['}'])) (.named items)
  | unnamed {gap inner : List Char} {items : List (Nat × Field)} (hgap : Blank gap)
      (h : Within (Field.Stands file source) (before ++ (gap ++ ['('])) inner (items.map (·.2))) :
      Fields.Stands file source before (gap ++ '(' :: (inner ++ [')'])) (.unnamed items)

/-- The text is a variant, from its blocks and doc comments to its fields, and its span delimits its name. -/
inductive Variant.Stands (file : String) (source before : List Char) : List Char → Variant → Prop
  | mk {front rest : List Char} {v : Variant} (hheader : Header file source before front v.attrs v.docs)
      (hspan : Delimits file source (before ++ front) v.ident.toList v.span)
      (hfields : v.fields.Stands file source (before ++ (front ++ v.ident.toList)) rest) :
      Variant.Stands file source before (front ++ (v.ident.toList ++ rest)) v

/-- A token is delimited by its span. -/
theorem Laid.delimits (file : String) (h : Laid source before text (t :: ts)) :
    Delimits file source before t.text.toList (some (t.span file)) := by
  have hprefix := h.isPrefix
  obtain _ | ⟨hstart, hstop, -, -, -⟩ := h
  refine ⟨.trans ?_ hprefix, by rw [Token.span, hstart, hstop]⟩
  rw [List.append_assoc t.text.toList, ← List.append_assoc]
  exact List.prefix_append _ _

namespace Parse

variable (source)

theorem namedFields_derives (n : Nat) : Derives [] (some .leftBrace) (namedFields file n) fun ts _ fs =>
    ∃ items, fs = .named items ∧ Trails source ts (fs.Stands file source · ·) := by
  refine (bracketed_derives source (c := '{') (d := '}') (fun _ => namedField_derives source n _) rfl rfl).mono ?_
  rintro ts _ _ ⟨items, rfl, h⟩
  refine ⟨items, rfl, h.mono ?_⟩
  rintro before _ ⟨gap, inner, rfl, hgap, hinner⟩
  exact .named hgap (hinner.map fun _ _ _ hx => hx)

theorem unnamedFields_derives (n : Nat) : Derives [] (some .leftParen) (unnamedFields file n) fun ts _ fs =>
    ∃ items, fs = .unnamed items ∧ Trails source ts (fs.Stands file source · ·) := by
  refine (bracketed_derives source (c := '(') (d := ')') (fun _ => unnamedField_derives source n _) rfl rfl).mono ?_
  rintro ts _ _ ⟨items, rfl, h⟩
  refine ⟨_, rfl, h.mono ?_⟩
  rintro before _ ⟨gap, inner, rfl, hgap, hinner⟩
  refine .unnamed hgap ?_
  simpa [Function.comp_def] using hinner

theorem variant_derives (n : Nat) (ahead : Option Terminal) : Derives [] ahead (variant file n) fun ts _ v =>
    LaidAs source ts (v.Stands file source · ·) := by
  refine .bind_part (header_derives source n _) ?_
  rintro os k ⟨attrs, docs⟩ ⟨-, hos⟩
  refine .bind_check fun _ => .bind_shift fun name _ _ _ _ => .bind_peek ?_
  -- the same for each kind of fields, which come behind the name
  have hend (us : List Token) (fields : Fields Field) (hus : Trails source us (fields.Stands file source · ·)) :
      LaidAs source (os ++ (name :: us)) fun b text =>
        Variant.Stands file source b text ⟨name.text, fields, attrs, docs, name.span file⟩ := by
    intro before text hlaid
    obtain ⟨front, rest, rfl, hfront, hrest⟩ := Laid.append hlaid
    have hspan := hrest.delimits file
    obtain _ | ⟨-, -, -, hgap, hrest⟩ := hrest
    obtain ⟨body, gap, heq, hgap, hbody⟩ := hus (before ++ (front ++ name.text.toList)) _ _ hgap
      (by simpa only [List.append_assoc] using hrest)
    refine ⟨front ++ (name.text.toList ++ body), gap, ?_, hgap,
      .mk (v := ⟨name.text, fields, attrs, docs, name.span file⟩) (hos _ _ hfront) hspan hbody⟩
    rw [List.append_assoc name.text.toList, heq]
    simp only [List.append_assoc]
  split
  · refine .bind_part (namedFields_derives source n) ?_
    rintro us k _ ⟨items, rfl, hitems⟩
    refine .pure ?_
    have h := hend us _ hitems
    simpa using h
  · refine .bind_part (unnamedFields_derives source n) ?_
    rintro us k _ ⟨items, rfl, hitems⟩
    refine .pure ?_
    have h := hend us _ hitems
    simpa using h
  · exact .bind_pure (.pure (hend [] _ (trails_nil fun _ => .unit)))

end Parse

/-! ### Declarations and imports -/

def Shape.keyword : Shape → String
  | .struct _ => "struct"
  | .enum _ => "enum"
  | .union _ => "union"

/-- The text behind a name is the rest of what is declared. -/
inductive Shape.Stands (file : String) (source before : List Char) : List Char → Shape → Prop
  | unit {gap : List Char} (hgap : Blank gap) : Shape.Stands file source before (gap ++ [';']) (.struct .unit)
  | named {text : List Char} {items : List (String × Field)} (h : (Fields.named items).Stands file source before text) :
      Shape.Stands file source before text (.struct (.named items))
  | unnamed {text gap : List Char} {items : List (Nat × Field)}
      (h : (Fields.unnamed items).Stands file source before text) (hgap : Blank gap) :
      Shape.Stands file source before (text ++ (gap ++ [';'])) (.struct (.unnamed items))
  | enum {gap inner : List Char} {variants : List Variant} (hgap : Blank gap)
      (h : Within (Variant.Stands file source) (before ++ (gap ++ ['{'])) inner variants) :
      Shape.Stands file source before (gap ++ '{' :: (inner ++ ['}'])) (.enum variants)
  | union {text : List Char} {items : List (String × Field)} (h : (Fields.named items).Stands file source before text) :
      Shape.Stands file source before text (.union (.named items))

/-- The text is a declaration, from its blocks and doc comments to its end, and its span delimits its name. -/
inductive Declaration.Stands (file : String) (source before : List Char) : List Char → Declaration → Prop
  | mk {front head gap rest : List Char} {ws : List String} {d : Declaration}
      (hheader : Header file source before front d.attrs d.docs)
      (hwords : WrittenAs (d.visibility.words ++ [d.shape.keyword]) ws) (hwritten : Spaced ws head) (hgap : Blank gap)
      (hspan : Delimits file source (before ++ (front ++ (head ++ gap))) d.ident.toList d.span)
      (hshape : d.shape.Stands file source (before ++ (front ++ (head ++ (gap ++ d.ident.toList)))) rest) :
      Declaration.Stands file source before (front ++ (head ++ (gap ++ (d.ident.toList ++ rest)))) d

/-- The text is an import, and its span delimits the text. -/
inductive Import.Stands (file : String) (source before text : List Char) (i : Import) : Prop
  | mk {ws : List String} (hwords : WrittenAs i.words ws) (hwritten : Spaced ws text)
      (hspan : Delimits file source before text i.span) : Import.Stands file source before text i

namespace Parse

variable (source)

/-- The tokens from the keyword on are the keyword, the name, and the rest. -/
theorem shape_derives (n : Nat) {ahead : Option Terminal} (hahead : Site.keyword.admits ahead = true) :
    Derives [] ahead (shape file n) fun ts _ p => ∃ keyword body, ts = keyword :: p.1 :: body ∧
      keyword.text = p.2.keyword ∧ Trails source body (p.2.Stands file source · ·) := by
  refine .bind_peek ?_
  split
  · refine .bind_shift fun keyword _ hkeyword hspelling _ => .bind_shift fun name _ _ _ hadmits => .bind_peek ?_
    have hkeyword := text_of_terminal "struct" (.inr rfl) hkeyword hspelling
    split
    · refine .bind_part (namedFields_derives source n) ?_
      rintro us k _ ⟨items, rfl, hitems⟩
      exact .bind_check fun _ => .pure ⟨keyword, us, by simp, hkeyword, hitems.mono fun _ _ h => .named h⟩
    · refine .bind_part (unnamedFields_derives source n) ?_
      rintro us k _ ⟨items, rfl, hitems⟩
      refine .bind_check fun hadmits => .bind_shift fun semicolon _ hsemicolon hspelling' _ => .pure ?_
      obtain rfl := ahead_of_only hadmits
      have hsemicolon := text_of_terminal ";" (.inl rfl) hsemicolon hspelling'
      refine ⟨keyword, us ++ [semicolon], by simp, hkeyword, hitems.closed.mono ?_⟩
      rintro before _ ⟨front, gap, rfl, hgap, hfront⟩
      rw [hsemicolon]
      exact .unnamed hfront hgap
    · next hbrace hparen =>
      refine .bind_shift fun semicolon _ hsemicolon hspelling' _ => .pure ⟨keyword, [semicolon], by simp, hkeyword, ?_⟩
      obtain rfl := ahead_of_triple hadmits hbrace hparen
      have hsemicolon := text_of_terminal ";" (.inl rfl) hsemicolon hspelling'
      refine laidAs_token.trails ?_
      rintro before gap _ hgap rfl
      rw [hsemicolon]
      exact .unit hgap
  · refine .bind_shift fun keyword _ hkeyword hspelling _ => .bind_shift fun name _ _ _ hadmits => ?_
    have hkeyword := text_of_terminal "enum" (.inr rfl) hkeyword hspelling
    obtain rfl := ahead_of_only hadmits
    refine .part (bracketed_derives source (f := fun vs => (name, Shape.enum vs)) (c := '{') (d := '}')
      (variant_derives source n) rfl rfl) ?_
    rintro us _ _ ⟨variants, rfl, h⟩
    refine ⟨keyword, us, by simp, hkeyword, h.mono ?_⟩
    rintro before _ ⟨gap, inner, rfl, hgap, hinner⟩
    exact .enum hgap hinner
  · next hstruct henum =>
    obtain rfl := ahead_of_triple hahead henum hstruct
    refine .bind_shift fun keyword _ hkeyword hspelling _ => .bind_shift fun name _ _ _ hadmits => ?_
    have hkeyword := text_of_terminal "union" (.inr rfl) hkeyword hspelling
    obtain rfl := ahead_of_only hadmits
    refine .bind_part (namedFields_derives source n) ?_
    rintro us k _ ⟨items, rfl, hitems⟩
    exact .bind_check fun _ => .pure ⟨keyword, us, by simp, hkeyword, hitems.mono fun _ _ h => .union h⟩

theorem declaration_derives (n : Nat) (ahead : Option Terminal) : Derives [] ahead (declaration file n) fun ts _ d =>
    LaidAs source ts (d.Stands file source · ·) := by
  refine .bind_part (header_derives source n _) ?_
  rintro os k ⟨attrs, docs⟩ ⟨⟨hhash, hdoc⟩, hos⟩
  refine .bind_check fun hadmits => .bind_part (visibility_derives n _) ?_
  rintro vs k' v ⟨hv, hnext⟩
  have hkeyword : Site.keyword.admits k' = true := by
    rcases hnext with hnext | ⟨rfl, hpub⟩
    · exact hnext
    · obtain ⟨u, hu, rfl⟩ := Site.exists_of_admits hadmits rfl
      simp only [Site.declarationNext, List.mem_cons, List.not_mem_nil, or_false] at hu
      rcases hu with rfl | rfl | rfl | rfl | rfl | rfl <;> first | rfl | contradiction
  refine .bind_part (shape_derives source n hkeyword) ?_
  rintro _ k'' ⟨name, shape⟩ ⟨keyword, body, rfl, hword, hbody⟩
  refine .pure fun before text hlaid => ?_
  have hlaid : Laid source before text (os ++ ((vs ++ [keyword]) ++ (name :: body))) := by simpa using hlaid
  obtain ⟨front, rest, rfl, hfront, hlaid⟩ := hlaid.append
  obtain ⟨_, rest, rfl, hwords, hlaid⟩ := hlaid.append
  obtain ⟨head, gap, rfl, hgap, hwritten, -⟩ := hwords.spaced
  have hspan := hlaid.delimits file
  obtain _ | ⟨-, -, -, hgap', hlaid⟩ := hlaid
  simp only [List.append_assoc] at hspan hlaid
  obtain ⟨rest, gap', heq, hgap', hshape⟩ := hbody (before ++ (front ++ (head ++ (gap ++ name.text.toList)))) _ _ hgap'
    (by simpa only [List.append_assoc] using hlaid)
  have hwritten' : WrittenAs (v.words ++ [shape.keyword]) ((vs ++ [keyword]).map Token.text) := by
    rw [List.map_append, List.map_singleton, ← hword]
    exact hv.append (.refl [keyword.text])
  refine ⟨front ++ (head ++ (gap ++ (name.text.toList ++ rest))), gap', ?_, hgap',
    .mk (d := ⟨name.text, v, shape, attrs, docs, name.span file⟩) (hos _ _ hfront) hwritten' hwritten hgap hspan hshape⟩
  simp only [List.append_assoc, ← heq]

theorem import_derives (n : Nat) : Derives [] (some .useWord) (import_ file n) fun ts _ i =>
    LaidAs source ts (i.Stands file source · ·) := by
  refine .bind_here fun start => .bind_shift fun use _ huse hspelling _ => ?_
  have huse := text_of_terminal "use" (.inr rfl) huse hspelling
  refine .bind_part (path_derives n) fun ps k path hpath => .bind_check fun hadmits => .bind_peek ?_
  have hend (us : List Token) (k : Option Terminal) (alias? : Option String)
      (hus : us.map Token.text = alias?.elim [] fun s => ["as", s]) (hk : k = some .semicolon) :
      Derives ([use] ++ (ps ++ us)) k (do
        let _ ← shift .items
        return { path, alias?, span := start.spanTo file (← there) } : Parse Import) fun ts _ i =>
          ∃ t us, ts = t :: us ∧ (start = t.start → LaidAs source ts (i.Stands file source · ·)) := by
    refine .bind_shift fun semicolon _ hsemicolon hspelling' _ => .bind_there (.pure ⟨use, _, rfl, ?_⟩)
    rintro rfl before text hlaid
    obtain rfl := hk
    have hsemicolon := text_of_terminal ";" (.inl rfl) hsemicolon hspelling'
    have hprefix := hlaid.isPrefix
    have hstart := hlaid.start
    obtain ⟨front, gap, rfl, hgap, hwritten, hstop⟩ := hlaid.spaced
    rw [← List.append_assoc] at hprefix
    refine ⟨front, gap, rfl, hgap, .mk ?_ hwritten ⟨(List.prefix_append _ _).trans hprefix, by rw [hstart, hstop]⟩⟩
    have h := WrittenAs.word (w := "use") ((hpath.append (.refl (us.map Token.text))).append (.refl [";"]))
    simpa [Import.words, huse, hus, hsemicolon] using h
  split
  · refine .bind_shift fun asToken _ has hspelling' _ => .bind_shift fun name _ _ _ hadmits' => ?_
    have has := text_of_terminal "as" (.inr rfl) has hspelling'
    have h := hend [asToken, name] _ (some name.text) (by simp [has]) (ahead_of_only hadmits')
    simpa using h
  · next has =>
    simpa using hend [] k none rfl (ahead_of_pair hadmits has)

end Parse

/-! ### Files -/

/-- The text is imports and declarations one after another, each kind in order, with only space and comments around
them. -/
inductive ItemsStand (file : String) (source : List Char) :
    (before text : List Char) → List Import → List Declaration → Prop
  | nil {before gap : List Char} (hgap : LastBlank gap) : ItemsStand file source before gap [] []
  | import_ {before gap text rest : List Char} {i : Import} {is : List Import} {ds : List Declaration}
      (hgap : Blank gap) (hi : i.Stands file source (before ++ gap) text)
      (h : ItemsStand file source (before ++ (gap ++ text)) rest is ds) :
      ItemsStand file source before (gap ++ (text ++ rest)) (i :: is) ds
  | declaration {before gap text rest : List Char} {d : Declaration} {is : List Import} {ds : List Declaration}
      (hgap : Blank gap) (hd : d.Stands file source (before ++ gap) text)
      (h : ItemsStand file source (before ++ (gap ++ text)) rest is ds) :
      ItemsStand file source before (gap ++ (text ++ rest)) is (d :: ds)

variable (source) in
/-- The tokens of the items are laid up to the end. -/
theorem Parse.items_derives : ∀ (n : Nat) (is : List Import) (ds : List Declaration) (ahead : Option Terminal),
    Derives [] ahead (items file n is ds) fun ts k f => k = none ∧ ∃ is' ds', f.imports = is.reverse ++ is' ∧
      f.declarations = ds.reverse ++ ds' ∧ ∀ before gap text last, Blank gap → Laid source (before ++ gap) text ts →
        LastBlank last → ItemsStand file source before (gap ++ (text ++ last)) is' ds'
  | 0, _, _, _ => .exhausted
  | n + 1, is, ds, ahead => by
    refine .bind_peek ?_
    split
    · refine .pure ⟨rfl, [], [], by simp, by simp, fun before gap text last hgap hlaid hlast => ?_⟩
      cases hlaid
      exact .nil (.append hgap hlast)
    · refine .bind_part (import_derives source n) fun us _ i hi => .part (items_derives n (i :: is) ds _) ?_
      rintro vs _ f ⟨rfl, is', ds', his, hds, h⟩
      refine ⟨rfl, i :: is', ds', by simpa using his, hds, fun before gap text last hgap hlaid hlast => ?_⟩
      obtain ⟨front, gap', rest, rfl, hgap', hstands, hrest⟩ := hi.split hlaid
      rw [List.append_assoc front, List.append_assoc gap']
      refine .import_ hgap hstands (h _ _ _ _ hgap' ?_ hlast)
      simpa only [List.append_assoc] using hrest
    · refine .bind_part (declaration_derives source n _) fun us _ d hd => .part (items_derives n is (d :: ds) _) ?_
      rintro vs _ f ⟨rfl, is', ds', his, hds, h⟩
      refine ⟨rfl, is', d :: ds', his, by simpa using hds, fun before gap text last hgap hlaid hlast => ?_⟩
      obtain ⟨front, gap', rest, rfl, hgap', hstands, hrest⟩ := hd.split hlaid
      rw [List.append_assoc front, List.append_assoc gap']
      refine .declaration hgap hstands (h _ _ _ _ hgap' ?_ hlast)
      simpa only [List.append_assoc] using hrest

end TypedErrors
