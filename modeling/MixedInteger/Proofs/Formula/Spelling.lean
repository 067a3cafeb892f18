import Mathlib.Data.Nat.Digits.Defs
import MixedInteger.Formula.Token

/-! How words are spelled. Between the words of a formula stand blanks, and within brackets also line
ends and comments; a number is written with single underscores between its digits. The lexer takes
such a text apart one word at a time, and what a word may be followed by keeps it from running into
the next one. -/

namespace MixedInteger.Formula

/-! ### One word at a time -/

/-- With fuel for every character the words of a text are `ts`. -/
def Lexes (fresh : Bool) (depth : Nat) (cs : List Char) (ts : List Token) : Prop :=
  ∀ fuel, cs.length < fuel → tokensFrom fuel fresh depth cs = ts

section
variable {c : Char} {cs rest : List Char} {t : Token} {ts : List Token} {depth : Nat}

/-- A character that begins a word. -/
def StartsWord (c : Char) : Prop := isSpace c = false ∧ c ≠ '#' ∧ c ≠ '\n' ∧ c ≠ '\\'

theorem Lexes.nil : Lexes false depth [] [] := by
  intro fuel h
  cases fuel with
  | zero => simp at h
  | succ fuel => rfl

/-- Within a line blanks and comments make no difference. -/
theorem Lexes.of_body (h : Lexes false depth rest ts) (less : rest.length ≤ cs.length)
    (same : dropComment (cs.dropWhile isSpace) = dropComment (rest.dropWhile isSpace)) :
    Lexes false depth cs ts := by
  intro fuel hf
  rw [← h fuel (by omega)]
  cases fuel with
  | zero => simp at hf
  | succ fuel => simp [tokensFrom, same]

theorem Lexes.blank (hc : isSpace c = true) (h : Lexes false depth cs ts) :
    Lexes false depth (c :: cs) ts :=
  h.of_body (by simp) (by simp [hc])

theorem Lexes.line (hd : 0 < depth) (h : Lexes false depth cs ts) :
    Lexes false depth ('\n' :: cs) ts := by
  intro fuel hf
  cases fuel with
  | zero => simp at hf
  | succ fuel =>
    rw [← h fuel (by simp at hf; omega)]
    simp [tokensFrom, dropComment, hd, show isSpace '\n' = false by decide]

theorem Lexes.newline (h : Lexes true 0 cs ts) : Lexes false 0 ('\n' :: cs) (.newline :: ts) := by
  intro fuel hf
  cases fuel with
  | zero => simp at hf
  | succ fuel =>
    rw [← h fuel (by simp at hf; omega)]
    simp [tokensFrom, dropComment, show isSpace '\n' = false by decide]

theorem Lexes.continued (hcs : cs ≠ []) (h : Lexes false depth cs ts) :
    Lexes false depth ('\\' :: '\n' :: cs) ts := by
  intro fuel hf
  cases fuel with
  | zero => simp at hf
  | succ fuel =>
    rw [← h fuel (by simp at hf; omega)]
    simp [tokensFrom, dropComment, hcs, show isSpace '\\' = false by decide]

theorem Lexes.word (hc : StartsWord c) (hw : Formula.word (c :: cs) = (t, rest)) (ht : t ≠ .bad)
    (less : rest.length ≤ cs.length) (hd : depthAfter depth t ≤ maxDepth)
    (h : Lexes false (depthAfter depth t) rest ts) : Lexes false depth (c :: cs) (t :: ts) := by
  intro fuel hf
  obtain ⟨space, remark, line, backslash⟩ := hc
  cases fuel with
  | zero => simp at hf
  | succ fuel =>
    rw [← h fuel (by simp at hf; omega)]
    have body : dropComment ((c :: cs).dropWhile isSpace) = c :: cs := by
      simp [dropComment, space, remark]
    rw [tokensFrom]
    simp only [Bool.false_eq_true, if_false, body]
    split
    case h_1 h => cases h
    case h_2 h => cases h; exact absurd rfl line
    case h_3 h => cases h; exact absurd rfl backslash
    case h_4 =>
      rw [hw]
      cases t <;> simp_all [Nat.not_lt.mpr hd]

/-- A word that is none, or a bracket too deep, is the last. -/
theorem Lexes.refused (hc : StartsWord c) (hw : Formula.word (c :: cs) = (t, rest))
    (ht : t = .bad ∨ maxDepth < depthAfter depth t) : Lexes false depth (c :: cs) [.bad] := by
  intro fuel hf
  obtain ⟨space, remark, line, backslash⟩ := hc
  cases fuel with
  | zero => simp at hf
  | succ fuel =>
    have body : dropComment ((c :: cs).dropWhile isSpace) = c :: cs := by
      simp [dropComment, space, remark]
    rw [tokensFrom]
    simp only [Bool.false_eq_true, if_false, body]
    split
    case h_1 h => cases h
    case h_2 h => cases h; exact absurd rfl line
    case h_3 h => cases h; exact absurd rfl backslash
    case h_4 =>
      rw [hw]
      obtain rfl | deep := ht
      · simp
      · exact if_pos deep

/-! ### Comments -/

/-- A comment, if there is one. -/
inductive Remark : List Char → Prop
  | none : Remark []
  | some {text : List Char} (short : '\n' ∉ text) : Remark ('#' :: text)

section
variable {remark : List Char}

theorem Remark.dropped (hr : Remark remark) (front : rest.head?.all (· = '\n')) :
    dropComment (remark ++ rest) = rest := by
  cases hr with
  | none => cases rest <;> simp_all [dropComment]
  | @some text short =>
    have all (c : Char) (hc : c ∈ text) : decide (c ≠ '\n') = true := by
      simpa using fun h : c = '\n' => short (h ▸ hc)
    have after : rest.dropWhile (fun c => decide (c ≠ '\n')) = rest := by
      cases rest <;> simp_all
    rw [dropComment, if_pos (by rfl), List.cons_append, List.dropWhile_cons_of_pos (by decide),
      List.dropWhile_append_of_pos all, after]

theorem Remark.body (hr : Remark remark) (front : rest.head?.all (· = '\n')) :
    (remark ++ rest).dropWhile isSpace = remark ++ rest := by
  have remarks : isSpace '#' = false := by decide
  have lines : isSpace '\n' = false := by decide
  cases hr with
  | none => cases rest <;> simp_all
  | some => simp [remarks]

theorem Remark.lexes (hr : Remark remark) (front : rest.head?.all (· = '\n'))
    (h : Lexes false depth rest ts) : Lexes false depth (remark ++ rest) ts := by
  refine h.of_body (by simp) ?_
  have plain := Remark.none.body front
  have kept := Remark.none.dropped front
  simp only [List.nil_append] at plain kept
  rw [hr.body front, hr.dropped front, plain, kept]

end

/-! ### Where lines begin -/

theorem Lexes.start (hm : margin false false cs = (false, c :: rest)) (hc : StartsWord c)
    (less : rest.length < cs.length) (h : Lexes false 0 (c :: rest) ts) : Lexes true 0 cs ts := by
  intro fuel hf
  obtain ⟨space, remark, line, backslash⟩ := hc
  rw [← h fuel (by simp; omega)]
  cases fuel with
  | zero => simp at hf
  | succ fuel =>
    have body : dropComment (c :: rest) = c :: rest := by simp [dropComment, remark]
    simp only [tokensFrom, hm, if_true, Bool.false_eq_true, if_false, space, body,
      List.dropWhile_cons_of_neg, not_false_eq_true]
    split
    case h_1 h => cases h
    case h_2 h => cases h; exact absurd rfl line
    case h_3 h => cases h; exact absurd rfl backslash
    case h_4 => rfl

end

/-! ### Between words -/

/-- Blanks between words, at some depth of brackets. A line goes on behind a backslash, and within
brackets without one. -/
inductive Gap (depth : Nat) : List Char → Prop
  | nil : Gap depth []
  | blank {c : Char} {cs : List Char} (space : isSpace c = true) (more : Gap depth cs) :
      Gap depth (c :: cs)
  | continued {cs : List Char} (more : Gap depth cs) : Gap depth ('\\' :: '\n' :: cs)
  | line {cs : List Char} (inside : 0 < depth) (more : Gap depth cs) : Gap depth ('\n' :: cs)
  | remark {text cs : List Char} (inside : 0 < depth) (short : '\n' ∉ text) (more : Gap depth cs) :
      Gap depth ('#' :: text ++ '\n' :: cs)

section
variable {depth : Nat} {gap rest : List Char} {ts : List Token}

/-- A text may not end in a continuation. -/
theorem Gap.lexes (hg : Gap depth gap) (ends : rest = [] → ¬ ['\\', '\n'] <:+ gap)
    (h : Lexes false depth rest ts) : Lexes false depth (gap ++ rest) ts := by
  induction hg with
  | nil => exact h
  | blank space _ ih =>
    exact .blank space (ih fun hr hs => ends hr (hs.trans (List.suffix_cons ..)))
  | continued _ ih =>
    refine .continued ?_ (ih fun hr hs => ends hr (hs.trans (List.suffix_append ['\\', '\n'] _)))
    intro empty
    obtain ⟨rfl, hr⟩ := List.append_eq_nil_iff.mp empty
    exact ends hr List.suffix_rfl
  | line inside _ ih =>
    exact .line inside (ih fun hr hs => ends hr (hs.trans (List.suffix_cons ..)))
  | @remark text cs inside short _ ih =>
    have more := ih fun hr hs =>
      ends hr (hs.trans ⟨'#' :: text ++ ['\n'], by simp⟩)
    simpa using (Remark.some short).lexes (by simp) (.line inside more)

/-- The margin of a line ends where something else than blanks comes. -/
theorem Gap.margin (hg : Gap 0 gap) {c : Char} (space : isSpace c = false) (hc : c ≠ '\\')
    (blank kept : Bool) :
    ∃ b, Formula.margin blank kept (gap ++ c :: rest) = (b, c :: rest) := by
  induction hg generalizing blank kept with
  | nil => exact ⟨kept || blank, by simp [Formula.margin, space, hc]⟩
  | @blank d cs hd _ ih =>
    have : d ≠ '\\' := by rintro rfl; revert hd; decide
    obtain ⟨b, hb⟩ := ih (d ≠ formFeed) kept
    exact ⟨b, by simp_all [Formula.margin]⟩
  | @continued cs _ ih =>
    obtain ⟨b, hb⟩ := ih blank (kept || blank)
    refine ⟨b, ?_⟩
    rw [← hb]
    cases cs <;> simp [Formula.margin]
  | line inside => exact absurd inside (Nat.lt_irrefl 0)
  | remark inside => exact absurd inside (Nat.lt_irrefl 0)

end

/-! ### Around a formula -/

/-- A margin that leaves its line unindented: a form feed takes blanks back. -/
inductive Flush : List Char → Prop
  | nil : Flush []
  | formFeed {blanks cs : List Char} (space : ∀ c ∈ blanks, isSpace c = true) (more : Flush cs) :
      Flush (blanks ++ formFeed :: cs)
  | continued {cs : List Char} (more : Flush cs) : Flush ('\\' :: '\n' :: cs)

/-- What may stand in front of the first word. -/
inductive Opening : List Char → Prop
  | flush {margin : List Char} (h : Flush margin) : Opening margin
  | line {gap remark cs : List Char} (blank : Gap 0 gap) (words : Remark remark)
      (more : Opening cs) : Opening (gap ++ remark ++ '\n' :: cs)

/-- Lines without words up to the end of a text. -/
inductive LastLines : List Char → Prop
  | nil : LastLines []
  | remark {gap text : List Char} (blank : Gap 0 gap) (short : '\n' ∉ text) :
      LastLines (gap ++ '#' :: text)
  | line {gap remark cs : List Char} (blank : Gap 0 gap) (words : Remark remark)
      (more : LastLines cs) : LastLines (gap ++ remark ++ '\n' :: cs)

/-- What may stand behind the last word. -/
inductive Closing : List Char → Prop
  | here {gap remark : List Char} (blank : Gap 0 gap) (words : Remark remark)
      (ends : remark = [] → ¬ ['\\', '\n'] <:+ gap) : Closing (gap ++ remark)
  | lines {gap remark cs : List Char} (blank : Gap 0 gap) (words : Remark remark)
      (more : LastLines cs) : Closing (gap ++ remark ++ '\n' :: cs)

section
variable {c : Char} {cs rest : List Char} {ts : List Token}

theorem margin_formFeed {blanks : List Char} (space : ∀ c ∈ blanks, isSpace c = true)
    (blank kept : Bool) :
    margin blank kept (blanks ++ formFeed :: rest) = margin false kept rest := by
  induction blanks generalizing blank with
  | nil => simp [margin, show isSpace formFeed = true by decide, show formFeed ≠ '\\' by decide]
  | cons d blanks ih =>
    have hd : isSpace d = true := space d List.mem_cons_self
    have : d ≠ '\\' := by rintro rfl; revert hd; decide
    simp [margin, this, hd, ih fun c hc => space c (List.mem_cons_of_mem _ hc)]

theorem Flush.margin (h : Flush cs) (hc : StartsWord c) :
    Formula.margin false false (cs ++ c :: rest) = (false, c :: rest) := by
  induction h with
  | nil => simp [Formula.margin, hc.1, hc.2.2.2]
  | formFeed space _ ih => simpa [margin_formFeed space] using ih
  | @continued cs _ ih =>
    rw [← ih]
    cases cs <;> simp [Formula.margin]

theorem Lexes.emptyLine {gap remark : List Char} (blank : Gap 0 gap) (words : Remark remark)
    (h : Lexes true 0 cs ts) : Lexes true 0 (gap ++ remark ++ '\n' :: cs) ts := by
  intro fuel hf
  obtain ⟨b, hb⟩ : ∃ b, margin false false (gap ++ (remark ++ '\n' :: cs)) =
      (b, remark ++ '\n' :: cs) := by
    cases words with
    | none => exact blank.margin (by decide) (by decide) false false
    | some => exact blank.margin (by decide) (by decide) false false
  have dropped : dropComment (remark ++ '\n' :: cs) = '\n' :: cs := words.dropped (by simp)
  cases fuel with
  | zero => simp at hf
  | succ fuel =>
    rw [← h fuel (by simp at hf; omega)]
    simp [tokensFrom, hb, dropped]

theorem Opening.lexes (ho : Opening cs) (hc : StartsWord c) (h : Lexes false 0 (c :: rest) ts) :
    Lexes true 0 (cs ++ c :: rest) ts := by
  induction ho with
  | flush hm => exact .start (hm.margin hc) hc (by simp; omega) h
  | line blank words _ ih => simpa using Lexes.emptyLine blank words ih

theorem LastLines.lexes (h : LastLines cs) : Lexes true 0 cs [] := by
  induction h with
  | nil =>
    intro fuel hf
    cases fuel with
    | zero => simp at hf
    | succ fuel => rfl
  | @remark gap text blank short =>
    intro fuel hf
    obtain ⟨b, hb⟩ : ∃ b, margin false false (gap ++ '#' :: text) = (b, '#' :: text) :=
      blank.margin (by decide) (by decide) false false
    have dropped : dropComment ('#' :: text) = [] := by
      simpa using (Remark.some short).dropped (show ([] : List Char).head?.all (· = '\n') from rfl)
    cases fuel with
    | zero => simp at hf
    | succ fuel => simp [tokensFrom, hb, dropped]
  | line blank words _ ih => exact .emptyLine blank words ih

theorem Closing.lexes (h : Closing cs) :
    ∃ ts, (ts = [] ∨ ts = [.newline]) ∧ Lexes false 0 cs ts := by
  cases h with
  | here blank words ends =>
    have last := words.lexes rfl (Lexes.nil : Lexes false 0 [] [])
    exact ⟨[], .inl rfl, blank.lexes ends (by simpa using last)⟩
  | lines blank words more =>
    refine ⟨[.newline], .inr rfl, ?_⟩
    rw [List.append_assoc]
    exact blank.lexes (by simp) (words.lexes rfl (.newline more.lexes))

end

/-! ### What comes next -/

/-- Characters are tried one by one: those of a list, not all that there are. -/
theorem forall_listed {P : Char → Prop} [DecidablePred P] {cs : List Char}
    (h : (cs.all fun c => P c) = true) : ∀ c ∈ cs, P c :=
  fun c hc => of_decide_eq_true (List.all_eq_true.1 h c hc)

/-- Characters that end a number or a name. -/
def followers : List Char := [' ', '\t', formFeed, '\n', '#', '\\', '+', '-', '*', '/', '%', ')']

/-- A number or a name may end before `rest`. -/
def Parted (rest : List Char) : Prop := ∀ c ∈ rest.head?, c ∈ followers

section
variable {c : Char} {cs rest : List Char} {ts : List Token} {depth : Nat}

/-- None of them goes on with a word. -/
theorem followers_spec (hc : c ∈ followers) : Text.hexDigit c = none ∧ Text.isNamePart c = false ∧
    isQuote c = false ∧ c ∉ ['_', '.', 'e', 'E', 'j', 'J', 'x', 'X', 'o', 'O', 'b', 'B'] := by
  have apart : ∀ c ∈ followers, Text.hexDigit c = none ∧ Text.isNamePart c = false ∧
      isQuote c = false ∧ c ∉ ['_', '.', 'e', 'E', 'j', 'J', 'x', 'X', 'o', 'O', 'b', 'B'] :=
    forall_listed (by decide +kernel)
  exact apart c hc

theorem Gap.head_mem {gap : List Char} (hg : Gap depth gap) (hc : c ∈ gap.head?) :
    c ∈ [' ', '\t', formFeed, '\\', '\n', '#'] := by
  cases hg with
  | nil => cases hc
  | blank space =>
    cases hc
    have : c = ' ' ∨ c = '\t' ∨ c = formFeed := by simpa [isSpace, or_assoc] using space
    rcases this with rfl | rfl | rfl <;> decide
  | continued | line | remark =>
    cases hc
    decide

theorem Gap.parted {gap : List Char} (hg : Gap depth gap) (hr : Parted rest) :
    Parted (gap ++ rest) := by
  cases gap with
  | nil => exact hr
  | cons d gap =>
    intro c hc
    have all : ∀ c ∈ [' ', '\t', formFeed, '\\', '\n', '#'], c ∈ followers :=
      forall_listed (by decide)
    exact all c (hg.head_mem hc)

end

/-! ### Numbers -/

/-- Digits with single underscores between them. -/
inductive Digits (base : Nat) : List Char → List Nat → Prop
  | one {c : Char} {d : Nat} (digit : digit? base c = some d) : Digits base [c] [d]
  | cons {c : Char} {d : Nat} {cs : List Char} {ds : List Nat} (digit : digit? base c = some d)
      (more : Digits base cs ds) : Digits base (c :: cs) (d :: ds)
  | apart {c : Char} {d : Nat} {cs : List Char} {ds : List Nat} (digit : digit? base c = some d)
      (more : Digits base cs ds) : Digits base (c :: '_' :: cs) (d :: ds)

/-- The marks of bases other than ten. -/
def bases : List (Char × Nat) :=
  [('x', 16), ('X', 16), ('o', 8), ('O', 8), ('b', 2), ('B', 2)]

/-- The spellings of a number. In base ten it has no leading zeros and at most so many digits, unless it
is zero. -/
inductive Numeral (most : Nat) : List Char → Nat → Prop
  | decimal {cs : List Char} {ds : List Nat} (digits : Digits 10 cs ds)
      (plain : ∀ d ∈ ds, d ≠ 0 → ds.head? ≠ some 0 ∧ ds.length ≤ most) :
      Numeral most cs (Nat.ofDigits 10 ds.reverse)
  | based {mark : Char} {base : Nat} {cs : List Char} {ds : List Nat} (h : (mark, base) ∈ bases)
      (digits : Digits base cs ds) :
      Numeral most ('0' :: mark :: cs) (Nat.ofDigits base ds.reverse)
  | apart {mark : Char} {base : Nat} {cs : List Char} {ds : List Nat} (h : (mark, base) ∈ bases)
      (digits : Digits base cs ds) :
      Numeral most ('0' :: mark :: '_' :: cs) (Nat.ofDigits base ds.reverse)

theorem valueIn_eq (base : Nat) (ds : List Nat) : valueIn base ds = Nat.ofDigits base ds.reverse := by
  rw [Nat.ofDigits_eq_foldr, List.foldr_reverse, valueIn]
  simp [Nat.add_comm]

section
variable {base : Nat} {cs rest : List Char} {ds : List Nat}

theorem Digits.startsWithDigit (h : Digits base cs ds) :
    Formula.startsWithDigit base (cs ++ rest) = true := by
  cases h <;> simp_all [Formula.startsWithDigit]

theorem Digits.ne_nil (h : Digits base cs ds) : ds ≠ [] := by
  cases h <;> simp

theorem digitsAfter_parted (hr : Parted rest) : digitsAfter base true rest = ([], rest) := by
  cases rest with
  | nil => rfl
  | cons c rest =>
    obtain ⟨digit, -, -, others⟩ := followers_spec (hr c rfl)
    have : c ≠ '_' := fun h => others (by simp [h])
    simp [digitsAfter, digit?, digit, this]

theorem Digits.read (h : Digits base cs ds) (hr : Parted rest) (inside : Bool) :
    digitsAfter base inside (cs ++ rest) = (ds, rest) := by
  induction h generalizing inside with
  | one digit => simp [digitsAfter, digit, digitsAfter_parted hr]
  | cons digit _ ih => simp [digitsAfter, digit, ih]
  | @apart c d cs ds digit more ih =>
    have : digit? base '_' = none := rfl
    simp [digitsAfter, digit, this, more.startsWithDigit, ih]

theorem ended_parted (t : Token) (hr : Parted rest) : ended t rest = (t, rest) := by
  have : rest.head?.any Text.isNamePart = false := by
    cases rest with
    | nil => rfl
    | cons c rest => exact (followers_spec (hr c rfl)).2.1
  simp [ended, numberEnds, this]

/-- A number in base ten is read unless it has leading zeros or too many digits. -/
theorem decimal_parted (h : Digits 10 cs ds) (hr : Parted rest) :
    decimal (cs ++ rest) = if ds.any (· != 0) &&
      (decide (ds.head? = some 0) || decide (Text.maxDigits < ds.length)) then (.bad, [])
      else (.int (valueIn 10 ds), rest) := by
  have apart : ∀ c ∈ ['.', 'e', 'E', 'j', 'J'], rest.head? ≠ some c := by
    intro c hc front
    obtain ⟨-, -, -, others⟩ := followers_spec (hr c front)
    simp at hc
    rcases hc with rfl | rfl | rfl | rfl | rfl <;> simp at others
  have noExponent : exponent rest = some (false, 0, rest) := by
    cases rest with
    | nil => rfl
    | cons c rest => simp_all [exponent]
  have noImaginary : (rest.head?.any fun c => decide (c = 'j') || decide (c = 'J')) = false := by
    cases rest with
    | nil => rfl
    | cons c rest => simp_all
  have noPoint := apart '.' (by simp)
  unfold decimal digits
  rw [h.read hr]
  simp [noPoint, noExponent, noImaginary, ended_parted _ hr]

theorem decimal_read (h : Digits 10 cs ds)
    (plain : ∀ d ∈ ds, d ≠ 0 → ds.head? ≠ some 0 ∧ ds.length ≤ Text.maxDigits) (hr : Parted rest) :
    decimal (cs ++ rest) = (.int (valueIn 10 ds), rest) := by
  rw [decimal_parted h hr, if_neg]
  intro refused
  obtain ⟨some, large⟩ := Bool.and_eq_true_iff.mp refused
  obtain ⟨d, hd, nonzero⟩ := List.any_eq_true.mp some
  obtain ⟨front, short⟩ := plain d hd (by simpa using nonzero)
  simp [front, Nat.not_lt.mpr short] at large

theorem inBase_read (h : Digits base cs ds) (hr : Parted rest) :
    inBase base (cs ++ rest) = (.int (valueIn base ds), rest) ∧
      inBase base ('_' :: cs ++ rest) = (.int (valueIn base ds), rest) := by
  have front : (cs ++ rest).head? ≠ some '_' := by
    intro hf
    have starts : startsWithDigit base (cs ++ rest) = true := h.startsWithDigit
    rw [startsWithDigit, hf] at starts
    cases starts
  have ending := ended_parted (.int (valueIn base ds)) hr
  constructor
  · rw [inBase, if_neg front, digits, h.read hr]
    simp [h.ne_nil, ending]
  · rw [inBase, if_pos (by rfl), List.cons_append, List.drop_one, List.tail_cons, digits, h.read hr]
    simp [h.ne_nil, ending]

theorem digit?_isDigit {c : Char} {d : Nat} (h : digit? 10 c = some d) : c.isDigit = true := by
  obtain ⟨hex, small⟩ := Option.filter_eq_some_iff.mp h
  simp only [Text.hexDigit] at hex
  split at hex
  case isTrue between =>
    simp only [Char.isDigit, Bool.and_eq_true, decide_eq_true_eq]
    exact between
  split at hex
  case isTrue between =>
    have : 97 ≤ c.toNat := between.1
    simp at hex small
    omega
  split at hex
  case isTrue between =>
    have : 65 ≤ c.toNat := between.1
    simp at hex small
    omega
  cases hex

/-- A number in base ten has no mark of another one. -/
theorem number_eq_decimal (h : Digits 10 cs ds) (hr : Parted rest) :
    number (cs ++ rest) = decimal (cs ++ rest) := by
  have second {c d : Char} {more : List Char} (hs : cs ++ rest = c :: d :: more) :
      d ∉ ['x', 'X', 'o', 'O', 'b', 'B'] := by
    have decimals : ∀ d ∈ ['x', 'X', 'o', 'O', 'b', 'B'], digit? 10 d = none :=
      forall_listed (by decide)
    cases h with
    | one =>
      cases hs
      obtain ⟨-, -, -, others⟩ := followers_spec (hr d rfl)
      simp_all
    | cons _ more =>
      intro hd
      have first := decimals d hd
      cases more <;> cases hs <;> simp_all
    | apart =>
      cases hs
      simp
  unfold number
  split
  case h_1 d more hs =>
    have := second hs
    simp at this
    simp [this]
  case h_2 => rfl

theorem number_based {mark : Char} (h : (mark, base) ∈ bases) :
    number ('0' :: mark :: cs) = inBase base cs := by
  simp only [bases, List.mem_cons, Prod.mk.injEq, List.not_mem_nil, or_false] at h
  rcases h with ⟨rfl, rfl⟩ | ⟨rfl, rfl⟩ | ⟨rfl, rfl⟩ | ⟨rfl, rfl⟩ | ⟨rfl, rfl⟩ | ⟨rfl, rfl⟩ <;> rfl

/-- A number begins with a decimal digit and is read as what it stands for. -/
theorem Numeral.read {n : Nat} (h : Numeral Text.maxDigits cs n) (hr : Parted rest) :
    number (cs ++ rest) = (.int n, rest) := by
  cases h with
  | decimal digits plain =>
    rw [number_eq_decimal digits hr, decimal_read digits plain hr, valueIn_eq]
  | based h digits =>
    rw [List.cons_append, List.cons_append, number_based h, (inBase_read digits hr).1, valueIn_eq]
  | apart h digits =>
    rw [List.cons_append, List.cons_append, number_based h, (inBase_read digits hr).2, valueIn_eq]

/-- Only the digits of a number in base ten are counted. -/
theorem Numeral.refused {most n : Nat} (h : Numeral most cs n)
    (large : ¬ Numeral Text.maxDigits cs n) (hr : Parted rest) :
    number (cs ++ rest) = (.bad, []) := by
  cases h with
  | @decimal cs ds digits plain =>
    have : ∃ d ∈ ds, d ≠ 0 ∧ Text.maxDigits < ds.length := by
      by_contra none
      refine large (.decimal digits fun d hd nonzero => ⟨(plain d hd nonzero).1, ?_⟩)
      exact Nat.not_lt.mp fun long => none ⟨d, hd, nonzero, long⟩
    obtain ⟨d, hd, nonzero, long⟩ := this
    have some : ds.any (· != 0) = true := List.any_eq_true.mpr ⟨d, hd, by simpa using nonzero⟩
    rw [number_eq_decimal digits hr, decimal_parted digits hr, if_pos (by simp [some, long])]
  | based h digits => exact absurd (.based h digits) large
  | apart h digits => exact absurd (.apart h digits) large

theorem Numeral.head {most n : Nat} (h : Numeral most cs n) :
    ∃ c more, cs = c :: more ∧ c.isDigit = true := by
  cases h with
  | decimal digits => cases digits <;> exact ⟨_, _, rfl, digit?_isDigit ‹_›⟩
  | based => exact ⟨_, _, rfl, rfl⟩
  | apart => exact ⟨_, _, rfl, rfl⟩

end

/-! ### Words -/

/-- The spellings of a name. -/
structure Identifier (cs : List Char) : Prop where
  start : cs.head?.any Text.isNameStart
  parts : ∀ c ∈ cs, Text.isNamePart c = true
  free : String.ofList cs ∉ reserved

/-- Characters that begin an operand. -/
def Starter (c : Char) : Prop := c.isDigit = true ∨ Text.isNameStart c = true ∨ c ∈ ['+', '-', '(']

/-- Marks of arithmetic. -/
def signsAndBrackets : List String := ["+", "-", "*", "**", "/", "//", "%", "(", ")"]

/-- Characters that make an operator longer. -/
def extenders : List Char := ['=', '>', '*', '/']

section
variable {c : Char} {cs rest : List Char} {ts : List Token} {depth : Nat}

theorem isDigit_mem (h : c.isDigit = true) :
    c ∈ ['0', '1', '2', '3', '4', '5', '6', '7', '8', '9'] := by
  have between : 48 ≤ c.toNat ∧ c.toNat ≤ 57 := by
    simpa [Char.isDigit, UInt32.le_iff_toNat_le] using h
  have all : ∀ n ≤ 57, 48 ≤ n →
      Char.ofNat n ∈ ['0', '1', '2', '3', '4', '5', '6', '7', '8', '9'] := by decide
  simpa using all c.toNat between.2 between.1

theorem Starter.not_mem (h : Starter c) :
    c ∉ [' ', '\t', formFeed, '#', '\n', '\\', '=', '>', '*', '/'] := by
  intro hc
  have apart : ∀ c ∈ [' ', '\t', formFeed, '#', '\n', '\\', '=', '>', '*', '/'],
      ¬(c.isDigit = true ∨ Text.isNameStart c = true ∨ c ∈ ['+', '-', '(']) :=
    forall_listed (by decide)
  exact apart c hc h

theorem Starter.startsWord (h : Starter c) : StartsWord c := by
  have := h.not_mem
  simp_all [StartsWord, isSpace]

theorem Starter.not_extender (h : Starter c) : c ∉ extenders := by
  have := h.not_mem
  simp_all [extenders]

/-- A word that begins with a digit is a number. -/
theorem word_number (hc : c.isDigit = true) : Formula.word (c :: cs) = number (c :: cs) := by
  have plain : Text.isNameStart c = false ∧ isQuote c = false := by
    have all : ∀ d ∈ ['0', '1', '2', '3', '4', '5', '6', '7', '8', '9'],
        Text.isNameStart d = false ∧ isQuote d = false := forall_listed (by decide)
    exact all c (isDigit_mem hc)
  simp [Formula.word, plain, hc]

theorem Identifier.read (h : Identifier cs) (hr : Parted rest) :
    Formula.word (cs ++ rest) = (.name (Text.normalForm (String.ofList cs)), rest) := by
  obtain ⟨start, parts, free⟩ := h
  cases cs with
  | nil => simp at start
  | cons c cs =>
    have start : Text.isNameStart c = true := start
    have front : rest.takeWhile Text.isNamePart = [] ∧ rest.dropWhile Text.isNamePart = rest ∧
        rest.head?.any isQuote = false := by
      cases rest with
      | nil => exact ⟨rfl, rfl, rfl⟩
      | cons d rest =>
        obtain ⟨-, part, quote, -⟩ := followers_spec (hr d rfl)
        exact ⟨by simp [part], by simp [part], quote⟩
    obtain ⟨none, all, quote⟩ := front
    have run : (c :: cs ++ rest).takeWhile Text.isNamePart = c :: cs := by
      rw [List.takeWhile_append_of_pos parts, none, List.append_nil]
    have after : (c :: cs ++ rest).dropWhile Text.isNamePart = rest := by
      rw [List.dropWhile_append_of_pos parts, all]
    rw [List.cons_append] at run after ⊢
    unfold Formula.word
    have : reserved.contains (String.ofList (c :: cs)) = false := by simpa using free
    simp only [start, if_true, run, after, quote, this, Bool.false_and, Bool.false_eq_true, if_false]

/-- No longer mark is found. -/
theorem marks_find {m : String} (hm : m ∈ signsAndBrackets)
    (hr : m ∈ ["(", ")"] ∨ ∀ c ∈ rest.head?, c ∉ extenders) :
    marks.find? (fun a => a.toList.isPrefixOf (m.toList ++ rest)) = some m := by
  have longer : ∀ m ∈ signsAndBrackets, ∀ a ∈ marks.takeWhile (· ≠ m),
      ¬ a.toList <+: m.toList ∧ (m.toList <+: a.toList → m ∉ ["(", ")"] ∧
        (a.toList.drop m.toList.length).head?.any (extenders.contains ·) = true) := by
    decide +kernel
  have known : ∀ m ∈ signsAndBrackets, marks = marks.takeWhile (· ≠ m) ++ m ::
      (marks.dropWhile (· ≠ m)).tail := by decide +kernel
  rw [List.find?_eq_some_iff_append]
  refine ⟨by simp, _, _, known m hm, fun a ha => ?_⟩
  obtain ⟨shorter, extends_⟩ := longer m hm a ha
  rw [Bool.not_eq_true', ← Bool.not_eq_true, List.isPrefixOf_iff_prefix]
  intro front
  rcases List.prefix_or_prefix_of_prefix front (List.prefix_append m.toList rest) with h | h
  · exact shorter h
  · obtain ⟨plain, next⟩ := extends_ h
    obtain ⟨c, hc, longer⟩ := (Option.any_eq_true _ _).1 next
    rw [List.contains_iff_mem] at longer
    obtain ⟨more, hm⟩ := h
    rw [← hm, List.drop_left] at hc
    rw [← hm, List.prefix_append_right_inj] at front
    obtain ⟨after, rfl⟩ := front
    cases more with
    | nil => cases hc
    | cons d more =>
      cases hc
      exact (hr.resolve_left plain) c rfl longer

/-- A mark is read as it is. -/
theorem mark_read {m : String} (hm : m ∈ signsAndBrackets)
    (hr : m ∈ ["(", ")"] ∨ ∀ c ∈ rest.head?, c ∉ extenders) :
    ∃ c cs, m.toList = c :: cs ∧ c ∈ ['+', '-', '*', '/', '%', '(', ')'] ∧ StartsWord c ∧
      Formula.word (c :: cs ++ rest) = (.mark m, rest) := by
  have listed : ∀ m ∈ signsAndBrackets, m.toList ≠ [] ∧
      ∀ c ∈ m.toList, c ∈ ['+', '-', '*', '/', '%', '(', ')'] := by
    have all : ∀ m ∈ signsAndBrackets, m.toList ≠ [] ∧
        (m.toList.all fun c => c ∈ ['+', '-', '*', '/', '%', '(', ')']) = true := by decide +kernel
    exact fun m hm => ⟨(all m hm).1, forall_listed (all m hm).2⟩
  have plain : ∀ c ∈ ['+', '-', '*', '/', '%', '(', ')'], (isSpace c = false ∧ c ≠ '#' ∧ c ≠ '\n' ∧
      c ≠ '\\') ∧ Text.isNameStart c = false ∧ isQuote c = false ∧ c.isDigit = false ∧ c ≠ '.' :=
    forall_listed (by decide +kernel)
  have found := marks_find hm hr
  have after : (m.toList ++ rest).drop m.length = rest := by
    rw [← String.length_toList, List.drop_left]
  obtain ⟨some, marks⟩ := listed m hm
  obtain ⟨c, cs, chars⟩ := List.exists_cons_of_ne_nil some
  rw [chars] at marks
  have hc := marks c List.mem_cons_self
  obtain ⟨starts, name, quote, digit, point⟩ := plain c hc
  rw [chars, List.cons_append] at found after
  refine ⟨c, cs, chars, hc, starts, ?_⟩
  simp [Formula.word, name, quote, digit, point, found, after]

end

end MixedInteger.Formula
