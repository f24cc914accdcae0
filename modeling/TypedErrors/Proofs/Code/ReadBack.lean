import TypedErrors.Proofs.Code.Reader

/-! # Rendered expressions are read back

Behind a rendered expression stands a character that ends words. The reader takes the expression for the beginning of
what it reads and goes on with the trailers behind it (`Reads`). -/

namespace TypedErrors
namespace Code

/-- A name: an identifier that denotes no constant. No other keyword matters here. -/
structure IsName (s : String) : Prop where
  identifier : (Identifier.ofText? (Text.ofString s)).isSome
  not_constant : s ∉ ["True", "False", "None"]

/-- An expression without raw text and decimals, all names in it being names. -/
inductive Expr.Plain : Expr → Prop
  | text (t : Text) : Plain (.constant (.text t))
  | int (n : Int) : Plain (.constant (.int n))
  | bool (b : Bool) : Plain (.constant (.bool b))
  | none : Plain (.constant .none)
  | name {id : String} (hid : IsName id) : Plain (.name id)
  | attr {v : Expr} {a : String} (hv : Plain v) (ha : IsName a) : Plain (.attribute v a)
  | call {f : Expr} {xs : List Expr} {ks : List Keyword} (hf : Plain f) (hxs : ∀ x ∈ xs, Plain x)
      (hnames : ∀ k v, .mk k v ∈ ks → IsName k) (hvalues : ∀ k v, .mk k v ∈ ks → Plain v) : Plain (.call f xs ks)
  | subscript {v : Expr} {xs : List Expr} (hv : Plain v) (hxs : ∀ x ∈ xs, Plain x) : Plain (.subscript v xs)
  | tuple {xs : List Expr} (hxs : ∀ x ∈ xs, Plain x) : Plain (.tuple xs)
  | list {xs : List Expr} (hxs : ∀ x ∈ xs, Plain x) : Plain (.list xs)

/-- The characters of a rendered expression. -/
def Expr.chars (x : Expr) : List Char := x.render.toList

namespace Reader

variable {n m : Nat} {r w : List Char} {c d : Char} {x v : Expr} {s : String}

/-- Nothing, or a text that starts with one of some characters. -/
def StartsIn (cs r : List Char) : Prop := ∀ c ∈ r.head?, c ∈ cs

theorem StartsIn.mono {cs ds : List Char} (h : StartsIn cs r) (hsub : ∀ c ∈ cs, c ∈ ds) : StartsIn ds r :=
  fun c hc => hsub c (h c hc)

theorem StartsIn.cons {cs : List Char} (h : c ∈ cs) : StartsIn cs (c :: r) := by
  rintro d ⟨⟩
  exact h

/-- What may follow an expression that is part of a larger one. -/
abbrev EndsWord : List Char → Prop := StartsIn ['.', '(', '[', ',', ')', ']', '=']

/-- What may follow an expression that takes no more trailers. -/
abbrev EndsTrailers : List Char → Prop := StartsIn [',', ')', ']', '=']

theorem EndsTrailers.endsWord (h : EndsTrailers r) : EndsWord r := h.mono (by simp)

/-! ### Words -/

/-- No word goes over the start of another atom, a trailer or what ends an item. -/
theorem not_isWordChar (hc : c ∈ ['"', '\'', '.', '(', '[', ',', ')', ']', '=']) : isWordChar c = false := by
  simp only [List.mem_cons, List.not_mem_nil, or_false] at hc
  rcases hc with rfl | rfl | rfl | rfl | rfl | rfl | rfl | rfl | rfl <;> decide

theorem span_word (hw : ∀ c ∈ w, isWordChar c = true) (hr : EndsWord r) :
    (w ++ r).takeWhile isWordChar = w ∧ (w ++ r).dropWhile isWordChar = r := by
  have hstop : r.takeWhile isWordChar = [] ∧ r.dropWhile isWordChar = r := by
    cases r with
    | nil => exact ⟨rfl, rfl⟩
    | cons c cs =>
      have hc : isWordChar c = false := not_isWordChar (List.mem_cons_of_mem _ (List.mem_cons_of_mem _ (hr c rfl)))
      exact ⟨List.takeWhile_cons_of_neg (by simp [hc]), List.dropWhile_cons_of_neg (by simp [hc])⟩
  rw [List.takeWhile_append_of_pos hw, List.dropWhile_append_of_pos hw, hstop.1, hstop.2, List.append_nil]
  exact ⟨rfl, rfl⟩

end Reader

open Reader

/-- An identifier starts with a character that starts words, and all of it is a word. -/
theorem IsName.chars {s : String} (h : IsName s) :
    (s.toList.head?.any Identifier.isStart) = true ∧ ∀ c ∈ s.toList, isWordChar c = true := by
  have hid := h.identifier
  rw [Identifier.ofText?, Text.ofString, Text.chars?_ofChars] at hid
  cases hs : s.toList with
  | nil => simp [hs] at hid
  | cons c cs =>
    simp only [hs] at hid
    split_ifs at hid with hall
    · simp only [Bool.and_eq_true, List.all_eq_true] at hall
      refine ⟨hall.1, fun d hd => ?_⟩
      rcases List.mem_cons.mp hd with rfl | hd
      · simp [isWordChar, Identifier.isContinue, hall.1]
      · simp [isWordChar, hall.2 d hd]
    · cases hid

namespace Reader

theorem ofWord_name (h : IsName s) : ofWord s.toList = .name s := by
  have hne : ∀ t ∈ ["True", "False", "None"], s.toList ≠ t.toList := fun t ht hs =>
    h.not_constant (String.toList_inj.mp hs ▸ ht)
  rw [ofWord, if_neg (hne _ (by decide)), if_neg (hne _ (by decide)), if_neg (hne _ (by decide)), if_pos h.chars.1,
    String.ofList_toList]

theorem isStart_of_isDigit (h : c.isDigit = true) : Identifier.isStart c = false ∧ isWordChar c = true := by
  have hascii : c.toNat < 0x80 := by
    simp only [Char.isDigit, Bool.and_eq_true, decide_eq_true_eq] at h
    exact Nat.lt_of_le_of_lt (UInt32.le_iff_toNat_le.mp h.2) (by decide)
  have hall : ∀ k < 0x80, (Char.ofNat k).isDigit = true →
      Identifier.isStart (Char.ofNat k) = false ∧ isWordChar (Char.ofNat k) = true := by
    decide
  simpa only [Char.ofNat_toNat] using hall c.toNat hascii (by rwa [Char.ofNat_toNat])

theorem integer_of_isDigit (h : ∀ c ∈ w, c.isDigit = true) : integer w = Nat.ofDigitChars 10 w 0 := by
  rw [integer]
  rintro ds rfl
  exact absurd (h '-' List.mem_cons_self) (by decide)

/-- The digits of a number, perhaps behind a sign. -/
theorem chars_int (i : Int) : ∃ k : Nat,
    i = k ∧ (toString i).toList = Nat.toDigits 10 k ∨ i = -k ∧ (toString i).toList = '-' :: Nat.toDigits 10 k := by
  change ∃ k : Nat, i = k ∧ i.repr.toList = _ ∨ i = -k ∧ i.repr.toList = _
  rw [Int.repr_eq_if]
  split_ifs with hi
  · exact ⟨i.toNat, .inl ⟨by omega, Nat.toList_repr⟩⟩
  · exact ⟨(-i).toNat, .inr ⟨by omega, by rw [String.toList_append, Nat.toList_repr]; rfl⟩⟩

theorem chars_int_word (i : Int) :
    (toString i).toList.head?.any Identifier.isStart = false ∧ ∀ c ∈ (toString i).toList, isWordChar c = true := by
  have hdigits (k : Nat) : ∀ c ∈ Nat.toDigits 10 k, Identifier.isStart c = false ∧ isWordChar c = true :=
    fun c hc => isStart_of_isDigit (Nat.isDigit_of_mem_toDigits (by decide) (by decide) hc)
  obtain ⟨k, ⟨-, hchars⟩ | ⟨-, hchars⟩⟩ := chars_int i
  · rw [hchars]
    refine ⟨?_, fun c hc => (hdigits k c hc).2⟩
    rw [Option.any_eq_false]
    exact fun c hc => by simp [(hdigits k c (List.mem_of_mem_head? hc)).1]
  · rw [hchars]
    refine ⟨show Identifier.isStart '-' = false by decide, fun c hc => ?_⟩
    rcases List.mem_cons.mp hc with rfl | hc
    · decide
    · exact (hdigits k c hc).2

theorem ofWord_int (i : Int) : ofWord (toString i).toList = .constant (.int i) := by
  have hhead := (chars_int_word i).1
  have hne : ∀ t ∈ ["True", "False", "None"], (toString i).toList ≠ t.toList := by
    intro t ht hs
    have hstart : ∀ t ∈ ["True", "False", "None"], t.toList.head?.any Identifier.isStart = true := by decide
    rw [hs, hstart t ht] at hhead
    cases hhead
  have hvalue : integer (toString i).toList = i := by
    have hdigits (k : Nat) : Nat.ofDigitChars 10 (Nat.toDigits 10 k) 0 = k := Nat.ofDigitChars_ten_toDigits
    obtain ⟨k, ⟨hi, hchars⟩ | ⟨hi, hchars⟩⟩ := chars_int i
    · rw [hchars, integer_of_isDigit, hdigits, hi]
      exact fun c hc => Nat.isDigit_of_mem_toDigits (by decide) (by decide) hc
    · rw [hchars, integer, hdigits, hi]
  rw [ofWord, if_neg (hne _ (by decide)), if_neg (hne _ (by decide)), if_neg (hne _ (by decide)), hhead,
    if_neg Bool.false_ne_true, hvalue]

/-! ### Literals -/

/-- Digits of an escape are neither delimiters nor backslashes. -/
theorem hex_plain (hd : d = '"' ∨ d = '\'') {k width : Nat} : ∀ c ∈ Quoted.hex width k, c ≠ d ∧ c ≠ '\\' := by
  intro c hc
  obtain ⟨j, hj, rfl⟩ := Quoted.mem_hex hc
  clear hc
  revert j
  rcases hd with rfl | rfl <;> decide

theorem literal?_plain (hw : ∀ c ∈ w, c ≠ d ∧ c ≠ '\\') (r : List Char) :
    literal? d (w ++ r) = (literal? d r).map (Prod.map (w ++ ·) id) := by
  induction w with
  | nil =>
    rw [List.nil_append]
    cases literal? d r <;> rfl
  | cons c w ih =>
    obtain ⟨⟨hc, hslash⟩, hw⟩ := List.forall_mem_cons.mp hw
    rw [List.cons_append, literal?, if_neg hc, ih hw, Option.map_map]
    · rfl
    · rintro _ _ rfl
      exact absurd rfl hslash

theorem literal?_escaped (hw : ∀ c ∈ w, c ≠ d ∧ c ≠ '\\') (r : List Char) :
    literal? d ('\\' :: c :: w ++ r) = (literal? d r).map (Prod.map ('\\' :: c :: w ++ ·) id) := by
  rw [List.cons_append, List.cons_append, literal?, literal?_plain hw, Option.map_map]
  rfl

/-- What stands for a code point does not end the literal. -/
theorem literal?_escape (hd : d = '"' ∨ d = '\'') {printable : CodePoint → Bool} (p : CodePoint) (r : List Char) :
    literal? d (Quoted.escape printable d p ++ r) =
      (literal? d r).map (Prod.map (Quoted.escape printable d p ++ ·) id) := by
  have hnone : ∀ c ∈ ([] : List Char), c ≠ d ∧ c ≠ '\\' := fun c hc => absurd hc List.not_mem_nil
  have hnumeric (k : Nat) : literal? d (Quoted.numeric k ++ r) =
      (literal? d r).map (Prod.map (Quoted.numeric k ++ ·) id) := by
    rw [Quoted.numeric]
    split_ifs <;> exact literal?_escaped (hex_plain hd) r
  cases p with
  | char c =>
    rw [Quoted.escape, Quoted.escapeChar]
    split_ifs with hslash
    any_goals exact literal?_escaped hnone r
    any_goals exact hnumeric _
    all_goals exact literal?_plain (List.forall_mem_singleton.mpr (not_or.mp hslash)) r
  | surrogate i => exact hnumeric _

theorem literal?_body (hd : d = '"' ∨ d = '\'') {printable : CodePoint → Bool} (t : Text) (r : List Char) :
    literal? d (Quoted.body printable d t ++ d :: r) = some (Quoted.body printable d t, r) := by
  induction t with
  | nil =>
    have hslash : d ≠ '\\' := by rcases hd with rfl | rfl <;> decide
    show literal? d (d :: r) = some ([], r)
    rw [literal?, if_pos rfl]
    exact fun _ _ h => absurd h hslash
  | cons p t ih =>
    rw [Quoted.body, List.flatMap_cons, List.append_assoc, literal?_escape hd, ← Quoted.body, ih]
    rfl

end Reader

/-! ### What it is to be read -/

variable {n m : Nat} {r : List Char} {x v : Expr}

/-- Whatever takes no word further may follow: the reader finds the expression, and trailers are next. Enough of the
count of trailers is left for what follows. -/
structure Expr.Reads (x : Expr) : Prop where
  starts : ∃ c cs, x.chars = c :: cs ∧ c ∉ [')', ']']
  reads : ∀ n r, EndsWord r → (x.chars ++ r).length ≤ n + 1 →
    ∃ m, r.length ≤ m ∧ expr? (n + 1) (x.chars ++ r) = trailers? (expr? n) m x r

theorem trailers?_ends {read : List Char → Option (Expr × List Char)} (hr : EndsTrailers r) :
    trailers? read m x r = some (x, r) := by
  cases r with
  | nil => cases m <;> rfl
  | cons c r =>
    have hc := hr c rfl
    cases m with
    | zero => rfl
    | succ m =>
      simp only [List.mem_cons, List.not_mem_nil, or_false] at hc
      rcases hc with rfl | rfl | rfl | rfl <;> rfl

/-- An expression is read as a whole where no trailers follow. -/
theorem Expr.Reads.whole (hx : x.Reads) (hr : EndsTrailers r) (hn : (x.chars ++ r).length ≤ n) :
    expr? n (x.chars ++ r) = some (x, r) := by
  obtain ⟨c, cs, hchars, -⟩ := hx.starts
  cases n with
  | zero => simp [hchars] at hn
  | succ n =>
    obtain ⟨m, -, hread⟩ := hx.reads n r hr.endsWord hn
    rw [hread, trailers?_ends hr]

/-- An expression whose characters are read as an atom. -/
theorem Expr.Reads.of_atom {c : Char} {t : List Char} (hchars : x.chars = c :: t) (hc : c ∉ [')', ']'])
    (h : ∀ n r, EndsWord r → (t ++ r).length ≤ n → atom? (expr? n) n (c :: (t ++ r)) = some (x, r)) : x.Reads := by
  refine ⟨⟨c, t, hchars, hc⟩, fun n r hr hn => ⟨n, ?_, ?_⟩⟩ <;>
    rw [hchars, List.cons_append, List.length_cons, Nat.add_le_add_iff_right] at hn
  · rw [List.length_append] at hn
    omega
  · rw [hchars, List.cons_append, expr?, h n r hr hn]
    rfl

theorem Expr.Reads.of_word (hchars : ∀ c ∈ x.chars, isWordChar c = true) (hne : x.chars ≠ [])
    (hword : ofWord x.chars = x) : x.Reads := by
  obtain ⟨c, cs, hcs⟩ := List.exists_cons_of_ne_nil hne
  have hc : isWordChar c = true := hchars c (hcs ▸ List.mem_cons_self)
  have hother : ∀ d ∈ ['"', '\'', '.', '(', '[', ',', ')', ']', '='], c ≠ d := by
    rintro d hd rfl
    rw [not_isWordChar hd] at hc
    cases hc
  refine .of_atom hcs (by simpa using ⟨hother ')' (by decide), hother ']' (by decide)⟩) fun n r hr _ => ?_
  obtain ⟨htake, hdrop⟩ := span_word hchars hr
  rw [hcs] at htake hdrop hword
  rw [List.cons_append] at htake hdrop
  rw [atom?, if_neg (by simpa using ⟨hother '"' (by decide), hother '\'' (by decide)⟩), if_neg (hother _ (by decide)),
    if_neg (hother _ (by decide)), htake, hdrop, hword]

theorem Expr.Reads.name {id : String} (hid : IsName id) : (Expr.name id).Reads := by
  refine .of_word hid.chars.2 ?_ (ofWord_name hid)
  intro hnil
  have hstart := hid.chars.1
  rw [show id.toList = [] from hnil] at hstart
  cases hstart

theorem Expr.Reads.int (i : Int) : (Expr.constant (.int i)).Reads := by
  refine .of_word (chars_int_word i).2 ?_ (ofWord_int i)
  obtain ⟨k, ⟨-, hchars⟩ | ⟨-, hchars⟩⟩ := chars_int i
  · show (toString i).toList ≠ []
    rw [hchars]
    exact Nat.toDigits_ne_nil
  · show (toString i).toList ≠ []
    rw [hchars]
    exact List.cons_ne_nil _ _

theorem Expr.Reads.bool (b : Bool) : (Expr.constant (.bool b)).Reads := by
  cases b <;> exact .of_word (List.all_eq_true.mp (by decide)) (by decide) rfl

theorem Expr.Reads.none : (Expr.constant .none).Reads := .of_word (List.all_eq_true.mp (by decide)) (by decide) rfl

theorem Reader.text?_body {d : Char} (hd : d = '"' ∨ d = '\'') (t : Text) (r : List Char) :
    text? d (Quoted.body CodePoint.isPrintable d t ++ d :: r) = some (.constant (.text t), r) := by
  rw [text?, literal?_body hd]
  show ((Escape.decode false (Quoted.body CodePoint.isPrintable d t)).toOption >>=
    fun t => some (Expr.constant (.text t), r)) = _
  rw [Quoted.decode_body hd]
  rfl

theorem Expr.Reads.text (t : Text) : (Expr.constant (.text t)).Reads := by
  obtain ⟨d, hd, hchars⟩ : ∃ d, (d = '"' ∨ d = '\'') ∧
      (Expr.constant (.text t)).chars = d :: (Quoted.body CodePoint.isPrintable d t ++ [d]) := by
    refine ⟨if t.contains (.char '"') then '\'' else '"', by split_ifs <;> simp, ?_⟩
    rw [Expr.chars, Expr.render, Constant.render, Text.literal, String.toList_ofList]
    rfl
  refine .of_atom hchars (by rcases hd with rfl | rfl <;> decide) fun n r _ _ => ?_
  rw [List.append_assoc, List.singleton_append, atom?, if_pos hd, text?_body hd]

/-! ### Items -/

namespace Reader

/-- Every expression in the item is read, and the name of a keyword is a name. -/
def Argument.Reads : Argument → Prop
  | .positional x => x.Reads
  | .keyword (.mk k v) => IsName k ∧ v.Reads

/-- The characters of items with commas between them. -/
def itemChars (items : List Argument) : List Char := (commas (items.map Argument.render)).toList

variable {a : Argument} {as : List Argument} {c : Char}

theorem itemChars_cons (a b : Argument) (as : List Argument) :
    itemChars (a :: b :: as) = a.render.toList ++ ',' :: ' ' :: itemChars (b :: as) := by
  show (a.render ++ ", " ++ commas ((b :: as).map Argument.render)).toList = _
  rw [String.toList_append, String.toList_append, List.append_assoc]
  rfl

theorem argument?_reads (ha : a.Reads) (hr : StartsIn [',', ')', ']'] r) (hn : (a.render.toList ++ r).length ≤ n) :
    argument? (expr? n) (a.render.toList ++ r) = some (a, r) := by
  cases a with
  | positional x =>
    have hread : expr? n (x.chars ++ r) = some (x, r) := ha.whole (hr.mono (by simp)) hn
    show expr? n (x.chars ++ r) >>= (fun p => item? (expr? n) p.1 p.2) = _
    rw [hread]
    cases r with
    | nil => rfl
    | cons c r =>
      have hc := hr c rfl
      simp only [List.mem_cons, List.not_mem_nil, or_false] at hc
      rcases hc with rfl | rfl | rfl <;> rfl
  | keyword k =>
    obtain ⟨k, v⟩ := k
    obtain ⟨hk, hv⟩ := ha
    have hchars : (Argument.keyword (.mk k v)).render.toList ++ r = (Expr.name k).chars ++ '=' :: (v.chars ++ r) := by
      show (k ++ "=" ++ v.render).toList ++ r = _
      rw [String.toList_append, String.toList_append, List.append_assoc, List.append_assoc]
      rfl
    rw [hchars] at hn ⊢
    have hname : expr? n ((Expr.name k).chars ++ '=' :: (v.chars ++ r)) = some (.name k, '=' :: (v.chars ++ r)) :=
      (Expr.Reads.name hk).whole (.cons (by decide)) hn
    have hvalue : expr? n (v.chars ++ r) = some (v, r) := by
      refine hv.whole (hr.mono (by simp)) ?_
      simp only [List.length_append, List.length_cons] at hn ⊢
      omega
    rw [argument?, hname]
    show (expr? n (v.chars ++ r)).map _ = _
    rw [hvalue]
    rfl

theorem head_itemChars (ha : a.Reads) (as : List Argument) : ∃ c cs, itemChars (a :: as) = c :: cs ∧ c ∉ [')', ']'] := by
  have hitem : ∃ c cs, a.render.toList = c :: cs ∧ c ∉ [')', ']'] := by
    cases a with
    | positional x => exact Expr.Reads.starts ha
    | keyword k =>
      obtain ⟨k, v⟩ := k
      obtain ⟨c, cs, hchars, hc⟩ := (Expr.Reads.name ha.1).starts
      refine ⟨c, cs ++ '=' :: v.chars, ?_, hc⟩
      show (k ++ "=" ++ v.render).toList = _
      rw [String.toList_append, String.toList_append, List.append_assoc, show k.toList = c :: cs from hchars]
      rfl
  obtain ⟨c, cs, hchars, hc⟩ := hitem
  cases as with
  | nil => exact ⟨c, cs, hchars, hc⟩
  | cons b as => exact ⟨c, _, by rw [itemChars_cons, hchars, List.cons_append], hc⟩

/-- Items are read up to what ends them. -/
theorem arguments?_reads (h : ∀ b ∈ a :: as, b.Reads) (hr : StartsIn [',', ')', ']'] r)
    (hmore : r.take 2 ≠ [',', ' ']) (hn : (itemChars (a :: as) ++ r).length ≤ n)
    (hm : (itemChars (a :: as) ++ r).length ≤ m) :
    arguments? (expr? n) m (itemChars (a :: as) ++ r) = some (a :: as, r) := by
  induction as generalizing a m with
  | nil =>
    obtain ⟨c, cs, hchars, -⟩ := head_itemChars (h a List.mem_cons_self) []
    have hpos : 0 < (itemChars [a] ++ r).length := by
      rw [hchars]
      exact Nat.succ_pos _
    obtain ⟨m, rfl⟩ : ∃ k, m = k + 1 := ⟨m - 1, by omega⟩
    have hread : argument? (expr? n) (itemChars [a] ++ r) = some (a, r) := argument?_reads (h a (by simp)) hr hn
    rw [arguments?, hread]
    show (if r.take 2 = [',', ' '] then _ else _) = _
    rw [if_neg hmore]
  | cons b as ih =>
    rw [itemChars_cons, List.append_assoc] at hn hm ⊢
    have hread := argument?_reads (r := ',' :: ' ' :: itemChars (b :: as) ++ r) (h a (by simp)) (.cons (by decide)) hn
    simp only [List.cons_append, List.length_append, List.length_cons] at hn hm
    obtain ⟨m, rfl⟩ : ∃ k, m = k + 1 := ⟨m - 1, by omega⟩
    have hrest : arguments? (expr? n) m (itemChars (b :: as) ++ r) = some (b :: as, r) := by
      refine ih (fun x hx => h x (List.mem_cons_of_mem a hx)) ?_ ?_ <;>
        · rw [List.length_append]
          omega
    rw [arguments?, hread]
    show (arguments? (expr? n) m (itemChars (b :: as) ++ r)).map _ = _
    rw [hrest]
    rfl

theorem enclosed?_cons (ha : a.Reads) (as : List Argument) (r : List Char) :
    enclosed? (expr? n) m (itemChars (a :: as) ++ r) = arguments? (expr? n) m (itemChars (a :: as) ++ r) := by
  obtain ⟨d, cs, hchars, hd⟩ := head_itemChars ha as
  rw [hchars, List.cons_append, enclosed?, if_neg]
  simpa using hd

/-- Items are read up to the bracket that closes them. -/
theorem enclosed?_reads (h : ∀ a ∈ as, a.Reads) (hc : c ∈ [')', ']'])
    (hn : (itemChars as ++ c :: r).length ≤ n) (hm : (itemChars as ++ c :: r).length ≤ m) :
    enclosed? (expr? n) m (itemChars as ++ c :: r) = some (as, c :: r) := by
  cases as with
  | nil =>
    show enclosed? (expr? n) m (c :: r) = _
    rw [enclosed?, if_pos (by simpa using hc)]
  | cons a as =>
    rw [enclosed?_cons (h a List.mem_cons_self)]
    have hcloses : StartsIn [',', ')', ']'] (c :: r) ∧ (c :: r).take 2 ≠ [',', ' '] := by
      simp only [List.mem_cons, List.not_mem_nil, or_false] at hc
      rcases hc with rfl | rfl <;> exact ⟨.cons (by decide), by simp⟩
    exact arguments?_reads h hcloses.1 hcloses.2 hn hm

theorem mapM_positional (xs : List Expr) : (xs.map Argument.positional).mapM Argument.positional? = some xs := by
  induction xs with
  | nil => rfl
  | cons x xs ih =>
    rw [List.map_cons, List.mapM_cons, ih]
    rfl

theorem expressions?_of_enclosed? {read : List Char → Option (Expr × List Char)} {cs rest : List Char} {xs : List Expr}
    (h : enclosed? read m cs = some (xs.map Argument.positional, rest)) :
    expressions? read m cs = some (xs, rest) := by
  rw [expressions?, h]
  show ((xs.map Argument.positional).mapM Argument.positional?).map _ = _
  rw [mapM_positional]
  rfl

/-- Expressions are read up to the bracket that closes them. -/
theorem expressions?_reads {xs : List Expr} (h : ∀ x ∈ xs, x.Reads) (hc : c ∈ [')', ']'])
    (hn : (itemChars (xs.map Argument.positional) ++ c :: r).length ≤ n)
    (hm : (itemChars (xs.map Argument.positional) ++ c :: r).length ≤ m) :
    expressions? (expr? n) m (itemChars (xs.map Argument.positional) ++ c :: r) = some (xs, c :: r) :=
  expressions?_of_enclosed? (enclosed?_reads (List.forall_mem_map.mpr h) hc hn hm)

theorem filterMap_positional (xs : List Expr) (ks : List Keyword) :
    (xs.map Argument.positional ++ ks.map Argument.keyword).filterMap Argument.positional? = xs := by
  have hnone : Argument.positional? ∘ Argument.keyword = fun _ => none := rfl
  have hsome : Argument.positional? ∘ Argument.positional = some := rfl
  rw [List.filterMap_append, List.filterMap_map, List.filterMap_map, hnone, hsome]
  simp

theorem filterMap_keyword (xs : List Expr) (ks : List Keyword) :
    (xs.map Argument.positional ++ ks.map Argument.keyword).filterMap Argument.keyword? = ks := by
  have hnone : Argument.keyword? ∘ Argument.positional = fun _ => none := rfl
  have hsome : Argument.keyword? ∘ Argument.keyword = some := rfl
  rw [List.filterMap_append, List.filterMap_map, List.filterMap_map, hnone, hsome]
  simp

theorem renderAll_eq (xs : List Expr) : Expr.renderAll xs = (xs.map Argument.positional).map Argument.render := by
  induction xs with
  | nil => rfl
  | cons x xs ih => rw [Expr.renderAll, ih, List.map_cons, List.map_cons, Argument.render]

theorem keyword_renderAll_eq (ks : List Keyword) :
    Keyword.renderAll ks = (ks.map Argument.keyword).map Argument.render := by
  induction ks with
  | nil => rfl
  | cons k ks ih =>
    obtain ⟨k, v⟩ := k
    rw [Keyword.renderAll, ih, List.map_cons, List.map_cons, Argument.render]

end Reader

/-! ### Expressions -/

namespace Expr.Reads

theorem tuple {xs : List Expr} (h : ∀ x ∈ xs, x.Reads) : (Expr.tuple xs).Reads := by
  by_cases hone : xs.length = 1
  · obtain ⟨x, rfl⟩ := List.length_eq_one_iff.mp hone
    have hx : ∀ a ∈ [Argument.positional x], a.Reads := List.forall_mem_singleton.mpr (h x List.mem_cons_self)
    have hchars : (Expr.tuple [x]).chars = '(' :: (itemChars [.positional x] ++ [',', ')']) := by
      rw [chars, render, String.toList_append, String.toList_append]
      rfl
    refine .of_atom hchars (by decide) fun n r _ hn => ?_
    rw [List.append_assoc] at hn ⊢
    have hread : enclosed? (expr? n) n (itemChars [.positional x] ++ ([',', ')'] ++ r)) =
        some ([x].map .positional, ',' :: ')' :: r) := by
      rw [enclosed?_cons (hx _ List.mem_cons_self)]
      exact arguments?_reads hx (.cons (by decide)) (by simp) hn hn
    rw [atom?, if_neg (by decide), if_pos rfl, expressions?_of_enclosed? hread]
    rfl
  · have hchars : (Expr.tuple xs).chars = '(' :: (itemChars (xs.map Argument.positional) ++ [')']) := by
      rw [chars, render, renderAll_eq, String.toList_append, String.toList_append]
      · rfl
      · rintro x rfl
        exact hone rfl
    refine .of_atom hchars (by decide) fun n r _ hn => ?_
    rw [List.append_assoc, List.singleton_append] at hn ⊢
    rw [atom?, if_neg (by decide), if_pos rfl, expressions?_reads h (by decide) hn hn]
    show tupleEnd? xs (')' :: r) = _
    rw [tupleEnd?, if_neg hone]
    rfl

theorem list {xs : List Expr} (h : ∀ x ∈ xs, x.Reads) : (Expr.list xs).Reads := by
  have hchars : (Expr.list xs).chars = '[' :: (itemChars (xs.map Argument.positional) ++ [']']) := by
    rw [chars, render, renderAll_eq, String.toList_append, String.toList_append]
    rfl
  refine .of_atom hchars (by decide) fun n r _ hn => ?_
  rw [List.append_assoc, List.singleton_append] at hn ⊢
  rw [atom?, if_neg (by decide), if_neg (by decide), if_pos rfl, expressions?_reads h (by decide) hn hn]
  rfl

/-- An expression is read with a trailer when it is read without. -/
theorem of_trailer {c : Char} {t : List Char} (hv : v.Reads) (hchars : x.chars = v.chars ++ c :: t)
    (hc : c ∈ ['.', '(', '[', ',', ')', ']', '='])
    (hstep : ∀ n m r, EndsWord r → (t ++ r).length ≤ n → (t ++ r).length ≤ m →
      trailers? (expr? n) (m + 1) v (c :: (t ++ r)) = trailers? (expr? n) m x r) : x.Reads := by
  obtain ⟨d, ds, hds, hd⟩ := hv.starts
  refine ⟨⟨d, ds ++ c :: t, by rw [hchars, hds, List.cons_append], hd⟩, fun n r hr hn => ?_⟩
  rw [hchars, List.append_assoc, List.cons_append] at hn ⊢
  obtain ⟨m, hm, hread⟩ := hv.reads n (c :: (t ++ r)) (.cons hc) hn
  rw [hds] at hn
  simp only [List.cons_append, List.length_cons, List.length_append] at hn hm
  obtain ⟨m, rfl⟩ : ∃ k, m = k + 1 := ⟨m - 1, by omega⟩
  refine ⟨m, by omega, ?_⟩
  rw [hread]
  refine hstep n m r hr ?_ ?_ <;>
    · rw [List.length_append]
      omega

theorem attr {a : String} (hv : v.Reads) (ha : IsName a) : (Expr.attribute v a).Reads := by
  have hchars : (Expr.attribute v a).chars = v.chars ++ '.' :: a.toList := by
    rw [chars, render, String.toList_append, String.toList_append, List.append_assoc]
    rfl
  refine of_trailer hv hchars (by decide) fun n m r hr _ _ => ?_
  obtain ⟨htake, hdrop⟩ := span_word ha.chars.2 hr
  rw [trailers?, htake, hdrop, String.ofList_toList]

theorem call {xs : List Expr} {ks : List Keyword} (hv : v.Reads) (hxs : ∀ x ∈ xs, x.Reads)
    (hnames : ∀ k v, .mk k v ∈ ks → IsName k) (hvalues : ∀ k v, .mk k v ∈ ks → v.Reads) :
    (Expr.call v xs ks).Reads := by
  have hitems : ∀ a ∈ xs.map Argument.positional ++ ks.map Argument.keyword, a.Reads := by
    refine List.forall_mem_append.mpr ⟨List.forall_mem_map.mpr hxs, List.forall_mem_map.mpr ?_⟩
    rintro ⟨k, v⟩ hmem
    exact ⟨hnames k v hmem, hvalues k v hmem⟩
  generalize hitemsEq : xs.map Argument.positional ++ ks.map Argument.keyword = items at hitems
  have hchars : (Expr.call v xs ks).chars = v.chars ++ '(' :: (itemChars items ++ [')']) := by
    rw [chars, render, renderAll_eq, keyword_renderAll_eq, ← List.map_append, hitemsEq]
    simp only [String.toList_append, List.append_assoc]
    rfl
  refine of_trailer hv hchars (by decide) fun n m r hr hn hm => ?_
  rw [List.append_assoc, List.singleton_append] at hn hm ⊢
  rw [trailers?, enclosed?_reads hitems (by decide) hn hm]
  show trailers? (expr? n) m (.call v (items.filterMap Argument.positional?) (items.filterMap Argument.keyword?)) r = _
  rw [← hitemsEq, filterMap_positional, filterMap_keyword]

theorem subscript {xs : List Expr} (hv : v.Reads) (hxs : ∀ x ∈ xs, x.Reads) : (Expr.subscript v xs).Reads := by
  have hchars : (Expr.subscript v xs).chars = v.chars ++ '[' :: (itemChars (xs.map Argument.positional) ++ [']']) := by
    rw [chars, render, renderAll_eq]
    simp only [String.toList_append, List.append_assoc]
    rfl
  refine of_trailer hv hchars (by decide) fun n m r hr hn hm => ?_
  rw [List.append_assoc, List.singleton_append] at hn hm ⊢
  rw [trailers?, expressions?_reads hxs (by decide) hn hm]
  rfl

end Expr.Reads

theorem Expr.Plain.reads (h : x.Plain) : x.Reads := by
  induction h with
  | text t => exact .text t
  | int i => exact .int i
  | bool b => exact .bool b
  | none => exact .none
  | name hid => exact .name hid
  | attr _ ha ihv => exact ihv.attr ha
  | call _ _ hnames _ ihf ihxs ihvalues => exact ihf.call ihxs hnames ihvalues
  | subscript _ _ ihv ihxs => exact ihv.subscript ihxs
  | tuple _ ihxs => exact .tuple ihxs
  | list _ ihxs => exact .list ihxs

/-- A rendered expression is read back. -/
theorem Expr.ofText?_render (h : x.Plain) : Expr.ofText? x.render = some x := by
  have hread : expr? x.chars.length (x.chars ++ []) = some (x, []) :=
    h.reads.whole (fun c hc => by cases hc) (by rw [List.append_nil])
  rw [List.append_nil] at hread
  rw [ofText?, ← chars, hread]
  rfl

end Code
end TypedErrors
