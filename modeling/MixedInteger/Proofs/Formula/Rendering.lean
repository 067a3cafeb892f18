import Mathlib.Data.List.Chain
import MixedInteger.Proofs.Formula.Evaluation
import MixedInteger.Proofs.Formula.Grammar
import MixedInteger.Proofs.Formula.Spelling

/-! Formulas as they are written. The words of a formula fit together: an operand is followed by an
operator or a closing bracket, and anything else by the beginning of an operand. So they can be
spelled one after the other, with or without blanks between them, and the lexer takes them apart
again. It gives up where brackets are nested too deep or a number has too many digits, and nowhere
else. A rendering of a tree of integers has the value of the tree, and a text with anything but
arithmetic on numbers in it has none. -/

namespace MixedInteger.Formula

/-! ### Words side by side -/

/-- A word that an operand begins with. -/
def Begins : Token → Prop
  | .int _ | .real _ | .name _ => True
  | .mark m => m ∈ ["+", "-", "("]
  | _ => False

/-- A word that an operand ends with. -/
def Finishes : Token → Prop
  | .int _ | .real _ | .name _ => True
  | .mark m => m = ")"
  | _ => False

/-- A word that may stand behind an operand. -/
def Continues : Token → Prop
  | .mark m => m ∈ ["+", "-", "*", "/", "//", "%", "**", ")"]
  | _ => False

structure Adjoins (t u : Token) : Prop where
  behind : Finishes t → Continues u
  before : ¬Finishes t → Begins u

/-- The words of an operand: they fit together, and brackets are closed. -/
structure Joined (ts : List Token) : Prop where
  ne_nil : ts ≠ []
  first : ∀ t ∈ ts.head?, Begins t
  last : ∀ t ∈ ts.getLast?, Finishes t
  chain : ts.IsChain Adjoins
  balanced : ∀ depth, ts.foldl depthAfter depth = depth

section
variable {l depth : ℕ} {f : Formula} {t u : Token} {ts us : List Token} {m : String}

theorem joined_one (hb : Begins t) (hf : Finishes t) (hd : ∀ depth, depthAfter depth t = depth) :
    Joined [t] :=
  ⟨by simp, by simpa using hb, by simpa using hf, .singleton t, by simpa using hd⟩

theorem not_finishes (hm : m ∈ ["+", "-", "*", "/", "//", "%", "**", "("]) :
    ¬Finishes (.mark m) := by
  rintro rfl
  revert hm
  decide

theorem depthAfter_operator (hm : m ∈ ["+", "-", "*", "/", "//", "%", "**"]) :
    depthAfter depth (.mark m) = depth := by
  have apart : ∀ m ∈ ["+", "-", "*", "/", "//", "%", "**"],
      m ∉ ["(", "[", "\x7b", ")", "]", "\x7d"] := by decide
  have := apart m hm
  simp_all [depthAfter]

/-- An operand behind an operator or an opening bracket. -/
theorem Joined.led (h : Joined ts) (ht : ¬Finishes t) : (t :: ts).IsChain Adjoins :=
  List.isChain_cons.2 ⟨fun u hu => ⟨fun finishes => absurd finishes ht, fun _ => h.first u hu⟩,
    h.chain⟩

/-- An operand in front of an operator or a closing bracket. -/
theorem Joined.followed (h : Joined ts) (hu : Continues u) (hus : (u :: us).IsChain Adjoins) :
    (ts ++ u :: us).IsChain Adjoins := by
  refine List.isChain_append.2 ⟨h.chain, hus, fun t ht v hv => ?_⟩
  obtain rfl : u = v := by simpa using hv
  exact ⟨fun _ => hu, fun open_ => absurd (h.last t ht) open_⟩

theorem Joined.sign (h : Joined ts) (hm : m ∈ ["+", "-"]) : Joined (.mark m :: ts) where
  ne_nil := by simp
  first := by
    have : m ∈ ["+", "-", "("] := List.mem_append_left ["("] hm
    simpa [Begins] using this
  last := by
    rw [List.getLast?_cons_of_ne_nil h.ne_nil]
    exact h.last
  chain := h.led (not_finishes (by revert hm; simp; tauto))
  balanced depth := by
    rw [List.foldl_cons, depthAfter_operator (by revert hm; simp; tauto), h.balanced]

theorem Joined.binary (hf : Joined ts) (hg : Joined us)
    (hm : m ∈ ["+", "-", "*", "/", "//", "%", "**"]) : Joined (ts ++ .mark m :: us) where
  ne_nil := by simp
  first := by
    obtain ⟨t, ts, rfl⟩ := List.exists_cons_of_ne_nil hf.ne_nil
    exact hf.first
  last := by
    obtain ⟨t, ht⟩ := List.getLast?_isSome.2 hg.ne_nil |> Option.isSome_iff_exists.1
    rw [List.getLast?_append, List.getLast?_cons_of_ne_nil hg.ne_nil, ht]
    simpa using hg.last t ht
  chain := hf.followed (List.mem_append_left [")"] hm)
    (hg.led (not_finishes (List.mem_append_left ["("] hm)))
  balanced depth := by
    rw [List.foldl_append, hf.balanced, List.foldl_cons, depthAfter_operator hm, hg.balanced]

theorem Joined.group (h : Joined ts) : Joined (.mark "(" :: ts ++ [.mark ")"]) where
  ne_nil := by simp
  first := by simp [Begins]
  last := by
    rw [List.getLast?_concat]
    rintro _ ⟨⟩
    rfl
  chain := by
    refine List.IsChain.append (h.led (not_finishes (by decide))) (.singleton _) ?_
    rw [List.getLast?_cons_of_ne_nil h.ne_nil]
    rintro t ht _ ⟨⟩
    exact ⟨fun _ => by simp [Continues], fun open_ => absurd (h.last t ht) open_⟩
  balanced depth := by
    rw [List.cons_append, List.foldl_cons, List.foldl_append, h.balanced]
    simp [depthAfter]

theorem Words.joined (h : Words l f ts) : Joined ts := by
  induction h with
  | int | real | name => exact joined_one trivial trivial fun _ => rfl
  | @sign l s m f ts hs level inner ih =>
    exact ih.sign (by cases s <;> cases hs <;> decide)
  | @binary l op x f g ts us hop level left right ihf ihg =>
    exact ihf.binary ihg (by cases op <;> cases hop <;> decide)
  | group inner ih => exact ih.group

end

/-! ### One word -/

/-- The spellings of a word of integer arithmetic. A number in base ten has at most so many
digits. -/
inductive Spells (most : ℕ) : Token → List Char → Prop
  | int {n : ℕ} {cs : List Char} (numeral : Numeral most cs n) : Spells most (.int n) cs
  | name {cs : List Char} (identifier : Identifier cs) :
      Spells most (.name (Text.normalForm (String.ofList cs))) cs
  | mark {m : String} (known : m ∈ signsAndBrackets) : Spells most (.mark m) m.toList

/-- What is next does not go on with the word. -/
structure Apart (t : Token) (rest : List Char) : Prop where
  operand : Finishes t → Parted rest
  operator : ¬Finishes t → ∀ c ∈ rest.head?, c ∉ extenders

section
variable {most depth : ℕ} {t u : Token} {cs gap rest : List Char} {ts : List Token}

/-- The character that a word begins with. -/
theorem Spells.head (h : Spells most t cs) : ∃ c more, cs = c :: more ∧
    (Begins t → Starter c) ∧ (Continues t → c ∈ followers) := by
  cases h with
  | int numeral =>
    obtain ⟨c, more, rfl, digit⟩ := numeral.head
    exact ⟨c, more, rfl, fun _ => .inl digit, nofun⟩
  | name identifier =>
    obtain ⟨start, -, -⟩ := identifier
    cases cs with
    | nil => simp at start
    | cons c more => exact ⟨c, more, rfl, fun _ => .inr (.inl start), nofun⟩
  | @mark m known =>
    have all : ∀ m ∈ signsAndBrackets, (m.toList.head?.any fun c =>
        (m ∈ ["+", "-", "("] → c ∈ ['+', '-', '(']) ∧
          (m ∈ ["+", "-", "*", "/", "//", "%", "**", ")"] → c ∈ followers)) = true := by
      decide +kernel
    obtain ⟨c, hc, spec⟩ := (Option.any_eq_true _ _).1 (all m known)
    obtain ⟨more, hm⟩ := List.head?_eq_some_iff.1 hc
    obtain ⟨begins, continues⟩ := of_decide_eq_true spec
    exact ⟨c, more, hm, fun h => .inr (.inr (begins h)), continues⟩

/-- Words that adjoin do not run into each other, whether there is a gap between them or not. -/
theorem Adjoins.apart (h : Adjoins t u) (hu : Spells most u cs) (hg : Gap depth gap)
    (rest : List Char) : Apart t (gap ++ (cs ++ rest)) := by
  obtain ⟨c, more, rfl, begins, continues⟩ := hu.head
  refine ⟨fun finishes => hg.parted ?_, fun open_ => ?_⟩
  · rintro _ ⟨⟩
    exact continues (h.behind finishes)
  · cases gap with
    | nil =>
      rintro _ ⟨⟩
      exact (begins (h.before open_)).not_extender
    | cons d gap =>
      rintro _ ⟨⟩
      have all : ∀ c ∈ [' ', '\t', formFeed, '\\', '\n', '#'], c ∉ extenders :=
        forall_listed (by decide)
      exact all d (hg.head_mem rfl)

/-- A word is read as it is spelled, but for a number with too many digits. -/
theorem Spells.read (h : Spells most t cs) (ha : Apart t rest) : ∃ c more, cs = c :: more ∧
    StartsWord c ∧ (Spells Text.maxDigits t cs → word (cs ++ rest) = (t, rest)) ∧
      (¬Spells Text.maxDigits t cs → word (cs ++ rest) = (.bad, [])) := by
  cases h with
  | int numeral =>
    obtain ⟨c, more, rfl, digit⟩ := numeral.head
    refine ⟨c, more, rfl, Starter.startsWord (.inl digit), fun short => ?_, fun large => ?_⟩
    · cases short with
      | int numeral => exact (word_number digit).trans (numeral.read (ha.operand trivial))
    · exact (word_number digit).trans
        (numeral.refused (fun short => large (.int short)) (ha.operand trivial))
  | name identifier =>
    have read := identifier.read (ha.operand trivial)
    have short : Spells Text.maxDigits _ cs := .name identifier
    obtain ⟨c, more, rfl, starts, -⟩ := short.head
    exact ⟨c, more, rfl, (starts trivial).startsWord, fun _ => read,
      fun large => absurd short large⟩
  | @mark m known =>
    have short : Spells Text.maxDigits (.mark m) m.toList := .mark known
    have front : m ∈ ["(", ")"] ∨ ∀ c ∈ rest.head?, c ∉ extenders := by
      by_cases hm : m = ")"
      · exact .inl (by simp [hm])
      · exact .inr (ha.operator hm)
    obtain ⟨c, more, chars, -, starts, read⟩ := mark_read known front
    rw [← chars] at read
    exact ⟨c, more, chars, starts, fun _ => read, fun large => absurd short large⟩

theorem Spells.lexes (h : Spells Text.maxDigits t cs) (ha : Apart t rest)
    (hd : depthAfter depth t ≤ maxDepth) (more : Lexes false (depthAfter depth t) rest ts) :
    Lexes false depth (cs ++ rest) (t :: ts) := by
  have known : t ≠ .bad := by cases h <;> simp
  obtain ⟨c, cs, rfl, starts, read, -⟩ := h.read ha
  exact .word starts (read h) known (by simp) hd more

theorem Spells.refused (h : Spells most t cs) (ha : Apart t rest)
    (large : ¬(Spells Text.maxDigits t cs ∧ depthAfter depth t ≤ maxDepth)) :
    Lexes false depth (cs ++ rest) [.bad] := by
  obtain ⟨c, more, rfl, starts, read, bad⟩ := h.read ha
  by_cases short : Spells Text.maxDigits t (c :: more)
  · exact .refused starts (read short) (.inr (Nat.lt_of_not_le fun hd => large ⟨short, hd⟩))
  · exact .refused starts (bad short) (.inl rfl)

end

/-! ### Words one after the other -/

/-- Words with gaps between them, at some depth of brackets, which is never more than `deep`. -/
inductive Spelled (most deep : ℕ) : ℕ → List Token → List Char → Prop
  | one {depth : ℕ} {t : Token} {cs : List Char} (word : Spells most t cs)
      (shallow : depthAfter depth t ≤ deep) : Spelled most deep depth [t] cs
  | cons {depth : ℕ} {t : Token} {ts : List Token} {cs gap more : List Char}
      (word : Spells most t cs) (shallow : depthAfter depth t ≤ deep)
      (between : Gap (depthAfter depth t) gap)
      (rest : Spelled most deep (depthAfter depth t) ts more) :
      Spelled most deep depth (t :: ts) (cs ++ (gap ++ more))

section
variable {most deep depth : ℕ} {t : Token} {cs rest : List Char} {ts us : List Token}

theorem Spelled.head (h : Spelled most deep depth ts cs) :
    ∃ t us ds more, ts = t :: us ∧ cs = ds ++ more ∧ Spells most t ds := by
  cases h with
  | @one _ t cs word => exact ⟨t, [], cs, [], rfl, (List.append_nil _).symm, word⟩
  | @cons _ t ts cs gap more word => exact ⟨t, ts, cs, gap ++ more, rfl, rfl, word⟩

/-- The word in front is apart from the others. -/
theorem Spelled.apart (h : Spelled most deep depth ts cs) (hchain : (t :: ts).IsChain Adjoins)
    {gap : List Char} (hg : Gap depth gap) (rest : List Char) : Apart t (gap ++ (cs ++ rest)) := by
  obtain ⟨u, us, ds, more, rfl, rfl, word⟩ := h.head
  have adjoins : Adjoins t u := (List.isChain_cons_cons.1 hchain).1
  simpa using adjoins.apart word hg (more ++ rest)

theorem Spelled.ne_nil (h : Spelled most deep depth ts cs) : ts ≠ [] ∧ cs ≠ [] := by
  obtain ⟨t, us, ds, more, rfl, rfl, word⟩ := h.head
  obtain ⟨c, ds, rfl, -⟩ := word.head
  simp

/-- A gap between two words. -/
theorem Spelled.gap_lexes (h : Spelled most deep depth ts cs) {gap : List Char}
    (hg : Gap depth gap) (more : Lexes false depth (cs ++ rest) us) :
    Lexes false depth (gap ++ (cs ++ rest)) us :=
  hg.lexes (fun none => absurd (List.append_eq_nil_iff.1 none).1 h.ne_nil.2) more

/-- Words are taken apart. -/
theorem Spelled.lexes (h : Spelled Text.maxDigits maxDepth depth ts cs)
    (hchain : ts.IsChain Adjoins) (hlast : ∀ t ∈ ts.getLast?, Apart t rest)
    (hrest : Lexes false (ts.foldl depthAfter depth) rest us) :
    Lexes false depth (cs ++ rest) (ts ++ us) := by
  induction h with
  | one word shallow => exact word.lexes (hlast _ rfl) shallow hrest
  | @cons depth t ts cs gap more word shallow between others ih =>
    rw [List.getLast?_cons_of_ne_nil others.ne_nil.1] at hlast
    have inner := ih (List.isChain_cons.1 hchain).2 hlast hrest
    have behind := others.gap_lexes between inner
    simpa using word.lexes (others.apart hchain between rest) shallow behind

/-- Words are taken apart unless a limit is passed, and then the lexer gives up. -/
theorem Spelled.limits (h : Spelled most deep depth ts cs) (hchain : ts.IsChain Adjoins)
    (hlast : ∀ t ∈ ts.getLast?, Apart t rest) :
    Spelled Text.maxDigits maxDepth depth ts cs ∨
      ∃ us, .bad ∈ us ∧ Lexes false depth (cs ++ rest) us := by
  induction h with
  | @one depth t cs word shallow =>
    by_cases small : Spells Text.maxDigits t cs ∧ depthAfter depth t ≤ maxDepth
    · exact .inl (.one small.1 small.2)
    · exact .inr ⟨[.bad], by simp, word.refused (hlast _ rfl) small⟩
  | @cons depth t ts cs gap more word shallow between others ih =>
    have apart := others.apart hchain between rest
    rw [List.getLast?_cons_of_ne_nil others.ne_nil.1] at hlast
    by_cases small : Spells Text.maxDigits t cs ∧ depthAfter depth t ≤ maxDepth
    · refine (ih (List.isChain_cons.1 hchain).2 hlast).imp ?_ ?_
      · exact fun rest => .cons small.1 small.2 between rest
      · rintro ⟨us, bad, inner⟩
        refine ⟨t :: us, List.mem_cons_of_mem t bad, ?_⟩
        simpa using small.1.lexes apart small.2 (others.gap_lexes between inner)
    · exact .inr ⟨[.bad], by simp, by simpa using word.refused apart small⟩

end

/-! ### Whole texts -/

/-- A text is a rendering of a formula: its words, with all brackets that they need and any others,
are spelled one after the other, between empty lines and comments. Every kind of line end is a
newline. -/
inductive Renders (most deep : ℕ) (s : String) (f : Formula) : Prop
  | intro {opening body closing : List Char} {ts : List Token}
      (text : unifyLines s.toList = opening ++ (body ++ closing))
      (plain : Char.ofNat 0 ∉ unifyLines s.toList) (before : Opening opening)
      (after : Closing closing) (words : Words 0 f ts) (spelled : Spelled most deep 0 ts body)

section
variable {most deep : ℕ} {s : String} {f : Formula}

/-- What follows the last word does not go on with it. -/
theorem Closing.parted {cs : List Char} (h : Closing cs) : Parted cs := by
  have line (rest : List Char) : Parted ('\n' :: rest) := by
    rintro _ ⟨⟩
    decide
  have remarks {remark rest : List Char} (hr : Remark remark) (h : Parted rest) :
      Parted (remark ++ rest) := by
    cases hr with
    | none => exact h
    | some =>
      rintro _ ⟨⟩
      decide
  cases h with
  | here blank words =>
    have ends : Parted [] := nofun
    exact blank.parted (by simpa using remarks words ends)
  | lines blank words more =>
    rw [List.append_assoc]
    exact blank.parted (remarks words (line _))

theorem Joined.apart {ts : List Token} (h : Joined ts) {rest : List Char} (hr : Parted rest) :
    ∀ t ∈ ts.getLast?, Apart t rest :=
  fun t ht => ⟨fun _ => hr, fun open_ => absurd (h.last t ht) open_⟩

/-- The lexer at the first word is the lexer at the beginning of the text. -/
theorem tokens_eq {opening body : List Char} {us : List Token}
    (text : unifyLines s.toList = opening ++ body) (plain : Char.ofNat 0 ∉ unifyLines s.toList)
    (before : Opening opening) (hstart : ∃ c more, body = c :: more ∧ StartsWord c)
    (h : Lexes false 0 body us) : tokens s = us := by
  obtain ⟨c, more, rfl, starts⟩ := hstart
  have lexed := before.lexes starts h
  unfold tokens
  dsimp only
  rw [if_neg (by simpa using plain), text]
  exact lexed _ (Nat.lt_succ_self _)

theorem Spelled.starts {depth : ℕ} {ts : List Token} {body : List Char}
    (h : Spelled most deep depth ts body) (hj : Joined ts) (rest : List Char) :
    ∃ c more, body ++ rest = c :: more ∧ StartsWord c := by
  obtain ⟨t, us, ds, more, rfl, rfl, word⟩ := h.head
  obtain ⟨c, ds, rfl, begins, -⟩ := word.head
  exact ⟨c, _, rfl, (begins (hj.first t rfl)).startsWord⟩

/-- The words of a rendering, and perhaps a newline behind them. -/
theorem Renders.tokens (h : Renders Text.maxDigits maxDepth s f) : ∃ ts more,
    Formula.tokens s = ts ++ more ∧ dropNewlines more = [] ∧ Words 0 f ts := by
  obtain ⟨text, plain, before, after, words, spelled⟩ := h
  obtain ⟨more, hmore, closing⟩ := after.lexes
  have joined := words.joined
  refine ⟨_, more, tokens_eq text plain before (spelled.starts joined _) ?_, ?_, words⟩
  · refine spelled.lexes joined.chain (joined.apart after.parted) ?_
    rwa [joined.balanced]
  · obtain rfl | rfl := hmore <;> rfl

theorem Renders.read (h : Renders Text.maxDigits maxDepth s f) : Formula.read s = .ok f := by
  obtain ⟨ts, more, split, ends, words⟩ := h.tokens
  exact (read_iff words.isArithmetic).2 ⟨ts, more, split, ends, words⟩

/-- A rendering is one within the limits, or the lexer gives up. -/
theorem Renders.limits (h : Renders most deep s f) :
    Renders Text.maxDigits maxDepth s f ∨ .bad ∈ Formula.tokens s := by
  obtain ⟨text, plain, before, after, words, spelled⟩ := h
  have joined := words.joined
  obtain small | ⟨us, bad, lexed⟩ := spelled.limits joined.chain (joined.apart after.parted)
  · exact .inl ⟨text, plain, before, after, words, small⟩
  · rw [tokens_eq text plain before (spelled.starts joined _) lexed]
    exact .inr bad

end

/-! ### Values of texts -/

/-- What is no arithmetic on numbers: constants of other kinds, operators and signs that are not for
numbers, names that no number has, and all other forms. -/
def Foreign (names : Names) : Formula → Prop
  | int _ | real _ => False
  | name n => ∀ v, Value.find? n names = some v → Quantity.ofValue? v = none
  | unary s _ => s = .other
  | binary op _ _ => op = .other
  | constant | other _ => True

section
variable {most deep : ℕ} {names : Names} {s : String} {f g : Formula} {q : Quantity} {v : ℤ}
  {l : ℕ} {ts : List Token}

/-- Nothing foreign stands in a formula that has a value, at whatever depth. -/
theorem not_foreign (h : f.evaluate names = .ok q) (hg : g ∈ f.subformulas) :
    ¬g.Foreign names := by
  induction f generalizing q with
  | int | real =>
    obtain rfl := List.mem_singleton.1 hg
    exact id
  | name n =>
    obtain rfl := List.mem_singleton.1 hg
    obtain ⟨v, found, number⟩ := valueOf_ok.1 h
    intro foreign_
    rw [foreign_ v found] at number
    cases number
  | unary s f ih =>
    obtain ⟨apply, a, sign, ha, -⟩ := evaluate_unary.1 h
    rcases List.mem_cons.1 hg with rfl | hg
    · rintro rfl
      cases sign
    · exact ih ha hg
  | binary op l r ihl ihr =>
    obtain ⟨apply, a, b, operation, ha, hb, -⟩ := evaluate_binary.1 h
    rcases List.mem_cons.1 hg with rfl | hg
    · rintro rfl
      cases operation
    · exact (List.mem_append.1 hg).elim (ihl ha) (ihr hb)
  | constant | other => cases h

theorem isArithmetic_of_not_foreign (h : ∀ g ∈ f.subformulas, ¬g.Foreign names) :
    f.IsArithmetic := by
  induction f with
  | int | real | name => exact trivial
  | unary s f ih => exact ⟨h _ List.mem_cons_self, ih fun g hg => h g (List.mem_cons_of_mem _ hg)⟩
  | binary op l r ihl ihr =>
    have inner (g : Formula) (hg : g ∈ l.subformulas ∨ g ∈ r.subformulas) : ¬g.Foreign names :=
      h g (List.mem_cons_of_mem _ (List.mem_append.2 hg))
    exact ⟨h _ List.mem_cons_self, ihl fun g hg => inner g (.inl hg),
      ihr fun g hg => inner g (.inr hg)⟩
  | constant | other => exact absurd trivial (h _ (List.mem_singleton.2 rfl))

/-- A text with a value is arithmetic on numbers and is written like it. -/
theorem words_of_compute (h : compute names s = .ok q) : ∃ f ts more, read s = .ok f ∧
    f.evaluate names = .ok q ∧ tokens s = ts ++ more ∧ dropNewlines more = [] ∧ Words 0 f ts := by
  unfold compute at h
  split at h
  case h_2 => cases h
  case h_1 f hf =>
    have arithmetic := isArithmetic_of_not_foreign fun g => not_foreign h
    obtain ⟨ts, more, split, ends, words⟩ := (read_iff arithmetic).1 hf
    exact ⟨f, ts, more, hf, h, split, ends, words⟩

theorem Words.bad_not_mem (h : Words l f ts) : .bad ∉ ts := by
  induction h with
  | int | real | name => simp
  | sign _ _ _ ih => simpa using ih
  | binary _ _ _ _ ihf ihg => simpa using ⟨ihf, ihg⟩
  | group _ ih => simpa using ih

theorem bad_not_mem_of_dropNewlines (h : dropNewlines ts = []) : .bad ∉ ts := by
  induction ts with
  | nil => simp
  | cons t ts ih => cases t <;> simp_all [dropNewlines]

/-- Where the lexer gives up there is no value. -/
theorem compute_bad (h : .bad ∈ tokens s) : compute names s ≠ .ok q := by
  intro value
  obtain ⟨f, ts, more, -, -, split, ends, words⟩ := words_of_compute value
  rw [split] at h
  exact (List.mem_append.1 h).elim words.bad_not_mem (bad_not_mem_of_dropNewlines ends)

/-- The text of a tree of integers, with all brackets that it needs and any others, has the exact
value of the tree. The lexer knows two limits, on the digits of a number in base ten and on the
depth of brackets, and a rendering that passes one of them has no value. Nor has a text with
anything foreign in it, at whatever depth; what has a value is written as arithmetic is. -/
theorem compute_rendered (names : Names) (s : String) :
    (∀ f v, Renders Text.maxDigits maxDepth s f → IntegerTree names f v →
      compute names s = .ok (.int v)) ∧
    (∀ most deep f, Renders most deep s f → ¬Renders Text.maxDigits maxDepth s f →
      ∀ q, compute names s ≠ .ok q) ∧
    (∀ f g, read s = .ok f → g ∈ f.subformulas → g.Foreign names → ∀ q, compute names s ≠ .ok q) ∧
    ∀ q, compute names s = .ok q → ∃ f ts more, read s = .ok f ∧ tokens s = ts ++ more ∧
      dropNewlines more = [] ∧ Words 0 f ts := by
  refine ⟨fun f v rendered tree => ?_, fun most deep f rendered large q => ?_,
    fun f g hf hg foreign_ q value => ?_, fun q value => ?_⟩
  · simp only [compute, rendered.read, tree.evaluate]
  · exact compute_bad (rendered.limits.resolve_left large)
  · obtain ⟨f', -, -, hf', evaluated, -⟩ := words_of_compute value
    obtain rfl : f = f' := by simpa [hf] using hf'
    exact not_foreign evaluated hg foreign_
  · obtain ⟨f, ts, more, hf, -, split, ends, words⟩ := words_of_compute value
    exact ⟨f, ts, more, hf, split, ends, words⟩

/-- The sign of a power comes after the power, and the quotient is rounded down. -/
theorem compute_rendered_negated :
    compute [(.text "x", .int 3)] "-x ** 2//4" = .ok (.int (-3)) := by
  have power : Words 2 (.binary .power (.name "x") (.int 2))
      ([.name "x"] ++ .mark "**" :: [.int 2]) :=
    .binary (x := ⟨"**", 3, 4, 2⟩) rfl (by decide) (.name "x") (.int 2)
  have negated : Words 1 (.unary .minus _) (.mark "-" :: _) := .sign rfl (by decide) power
  have words : Words 0 (.binary .floorDivide _ (.int 4)) (_ ++ .mark "//" :: [.int 4]) :=
    .binary (x := ⟨"//", 1, 1, 2⟩) rfl (Nat.zero_le 1) negated (.int 4)
  have digit {c : Char} {d : ℕ} (h : digit? 10 c = some d) :
      Spells Text.maxDigits (.int d) [c] := by
    have spelled : Numeral Text.maxDigits [c] (Nat.ofDigits 10 [d].reverse) :=
      .decimal (.one h) (by simp [Text.maxDigits])
    simpa using Spells.int spelled
  have mark {m : String} (known : m ∈ signsAndBrackets) :
      Spells Text.maxDigits (.mark m) m.toList := .mark known
  have name : Spells Text.maxDigits (.name "x") ['x'] := by
    have identifier : Identifier ['x'] := ⟨by decide, forall_listed (by decide), by decide⟩
    have normal : Text.normalForm (String.ofList ['x']) = "x" := by decide
    exact normal ▸ .name identifier
  have text : unifyLines "-x ** 2//4".toList = [] ++ (("-".toList ++ ([] ++ (['x'] ++ ([' '] ++
      ("**".toList ++ ([' '] ++ (['2'] ++ ([] ++ ("//".toList ++ ([] ++ ['4'])))))))))) ++ []) := by
    decide
  have spelled : Spelled Text.maxDigits maxDepth 0 _ _ :=
    .cons (mark (m := "-") (by decide)) (by decide) .nil <|
    .cons name (by decide) (.blank (c := ' ') rfl .nil) <|
    .cons (mark (m := "**") (by decide)) (by decide) (.blank (c := ' ') rfl .nil) <|
    .cons (digit (c := '2') rfl) (by decide) .nil <|
    .cons (mark (m := "//") (by decide)) (by decide) .nil <|
    .one (digit (c := '4') rfl) (by decide)
  have rendered : Renders Text.maxDigits maxDepth "-x ** 2//4" _ :=
    .intro text (by decide) (.flush .nil) (.here .nil .none (by simp)) words spelled
  have tree : IntegerTree [(.text "x", .int 3)] _ _ :=
    .floorDivide (.minus (.power (.name (s := "x") (i := 3) rfl) (.int 2))) (.int 4) (by decide)
  have value := (compute_rendered [(.text "x", .int 3)] "-x ** 2//4").1 _ _ rendered tree
  have rounded : ⌊((-3 ^ 2 : ℤ) : ℚ) / (4 : ℤ)⌋ = -3 := by norm_num
  exact value.trans (by rw [← rounded]; rfl)

end

end MixedInteger.Formula
