import Noxide.Library.Decimal

/-!
# JSON text

The JSON text of character strings, and of arrays of numbered strings.

Main results:

- Theorem {lit}`readString_quote`: what is written of a string reads as the string.
- Theorem {lit}`readPairs_write`: what is written of numbered strings reads as them.
- Theorem {lit}`quote_plain`: characters that need no escape are written as they are.
-/

namespace JsonText

/-! ## Strings -/

def hexDigit (n : Nat) : Char := if n < 10 then Char.ofNat (48 + n) else Char.ofNat (87 + n)

def hexValue (c : Char) : Option Nat :=
  if '0' ≤ c ∧ c ≤ '9' then some (c.toNat - 48)
  else if 'a' ≤ c ∧ c ≤ 'f' then some (c.toNat - 87)
  else if 'A' ≤ c ∧ c ≤ 'F' then some (c.toNat - 55)
  else none

/-- The short escapes. -/
def shortEscapes : List (Char × Char) :=
  [('"', '"'), ('\\', '\\'), ('b', Char.ofNat 8), ('t', '\t'), ('n', '\n'), ('f', Char.ofNat 12), ('r', '\r')]

/-- One character of a string: quotes, backslashes and control characters are escaped. -/
def escape (c : Char) : List Char :=
  match shortEscapes.find? fun entry => entry.2 = c with
  | some (letter, _) => ['\\', letter]
  | none => if c.toNat < 32 then ['\\', 'u', '0', '0', hexDigit (c.toNat / 16), hexDigit (c.toNat % 16)] else [c]

def quote (s : List Char) : List Char := '"' :: s.flatMap escape ++ ['"']

/-- The character of a short escape. -/
def unescape (letter : Char) : Option Char :=
  if letter = '/' then some '/'
  else (shortEscapes.find? fun entry => entry.1 = letter).map Prod.snd

/-- The character with four hexadecimal digits, where they are the code of one. -/
def unhex (digits : List Char) : Option Char := do
  let values ← digits.mapM hexValue
  let code := values.foldl (fun total value => total * 16 + value) 0
  if code.isValidChar then some (Char.ofNat code) else none

/-- The rest of a string behind its opening quote, and what follows it. -/
def readString : List Char → Option (List Char × List Char)
  | [] => none
  | '"' :: rest => some ([], rest)
  | '\\' :: 'u' :: a :: b :: c :: d :: rest => do
      let char ← unhex [a, b, c, d]
      let (s, rest) ← readString rest
      return (char :: s, rest)
  | '\\' :: letter :: rest => do
      let char ← unescape letter
      let (s, rest) ← readString rest
      return (char :: s, rest)
  | c :: rest =>
      if c.toNat < 32 then none
      else do
        let (s, rest) ← readString rest
        return (c :: s, rest)

/-- A character that is written as it is. -/
def Plain (c : Char) : Prop := 32 ≤ c.toNat ∧ c ≠ '"' ∧ c ≠ '\\'

theorem escape_plain {c : Char} (plain : Plain c) : escape c = [c] := by
  have missing : (shortEscapes.find? fun entry => entry.2 = c) = none := by
    rw [List.find?_eq_none]
    intro entry member same
    have here : entry.2 = c := of_decide_eq_true same
    rcases plain with ⟨printed, unquoted, unescaped⟩
    simp only [shortEscapes, List.mem_cons, List.not_mem_nil, or_false] at member
    rcases member with rfl | rfl | rfl | rfl | rfl | rfl | rfl
    · exact unquoted here.symm
    · exact unescaped here.symm
    all_goals
      rw [← here] at printed
      exact absurd printed (by decide)
  rw [escape, missing]
  exact if_neg (Nat.not_lt.mpr plain.1)

/-- Every character outside the escapes is plain. -/
theorem plain_of_unescaped {c : Char} (missing : (shortEscapes.find? fun entry => entry.2 = c) = none)
    (printed : ¬ c.toNat < 32) : Plain c := by
  rw [List.find?_eq_none] at missing
  refine ⟨Nat.not_lt.mp printed, fun same => ?_, fun same => ?_⟩
  · exact missing ('"', '"') (by decide) (decide_eq_true same.symm)
  · exact missing ('\\', '\\') (by decide) (decide_eq_true same.symm)

theorem readString_plain {c : Char} (plain : Plain c) (tail : List Char) :
    readString (c :: tail) = (readString tail).map fun parts => (c :: parts.1, parts.2) := by
  rcases plain with ⟨printed, unquoted, unescaped⟩
  rw [readString]
  · rw [if_neg (Nat.not_lt.mpr printed)]
    cases readString tail <;> rfl
  · exact unquoted
  · intro a b x d rest same _
    exact unescaped same
  · intro letter rest same _
    exact unescaped same

/-- The escapes of control characters read as them. -/
theorem unhex_control : ∀ n : Fin 32,
    unhex ['0', '0', hexDigit (n / 16), hexDigit (n % 16)] = some (Char.ofNat n) := by
  decide

/-- What is written of a character reads as the character. -/
theorem readString_escape (c : Char) (tail : List Char) :
    readString (escape c ++ tail) = (readString tail).map fun parts => (c :: parts.1, parts.2) := by
  cases found : shortEscapes.find? fun entry => entry.2 = c with
  | some entry =>
      have member := List.mem_of_find?_eq_some found
      have same : entry.2 = c := by simpa using List.find?_some found
      have letters : ∀ entry ∈ shortEscapes, entry.1 ≠ 'u' ∧ unescape entry.1 = some entry.2 := by decide
      rcases letters entry member with ⟨other, read⟩
      rw [escape, found]
      change readString ('\\' :: entry.1 :: tail) = _
      rw [readString]
      · rw [read, same]
        cases readString tail <;> rfl
      · intro a b x d rest same _
        exact other same
  | none =>
      by_cases control : c.toNat < 32
      · rw [escape, found]
        simp only
        rw [if_pos control]
        have read := unhex_control ⟨c.toNat, control⟩
        simp only at read
        change readString ('\\' :: 'u' :: '0' :: '0' :: hexDigit (c.toNat / 16) :: hexDigit (c.toNat % 16) :: tail) = _
        rw [readString, read, Char.ofNat_toNat]
        cases readString tail <;> rfl
      · have plain := plain_of_unescaped found control
        rw [escape_plain plain]
        exact readString_plain plain tail

/-- What is written of a string reads as the string. -/
theorem readString_quote (s tail : List Char) :
    readString (s.flatMap escape ++ '"' :: tail) = some (s, tail) := by
  induction s with
  | nil => rfl
  | cons c s ih =>
      rw [List.flatMap_cons, List.append_assoc, readString_escape, ih]
      rfl

theorem quote_plain {s : List Char} (plain : ∀ c ∈ s, Plain c) : quote s = '"' :: s ++ ['"'] := by
  have same : s.flatMap escape = s := by
    induction s with
    | nil => rfl
    | cons c s ih =>
        rw [List.flatMap_cons, escape_plain (plain c List.mem_cons_self),
          ih fun other member => plain other (List.mem_cons_of_mem _ member)]
        rfl
  rw [quote, same]

/-! ## Numbered strings -/

/-- A pair of a number and a string. -/
def writePair (pair : Nat × List Char) : List Char :=
  '[' :: Nat.toDigits 10 pair.1 ++ ',' :: quote pair.2 ++ [']']

/-- The pairs with commas between them. -/
def writeItems : List (Nat × List Char) → List Char
  | [] => []
  | [pair] => writePair pair
  | pair :: next :: rest => writePair pair ++ ',' :: writeItems (next :: rest)

theorem writeItems_cons (pair : Nat × List Char) (rest : List (Nat × List Char)) :
    writeItems (pair :: rest) = writePair pair ++ rest.flatMap fun next => ',' :: writePair next := by
  induction rest generalizing pair with
  | nil => rw [writeItems, List.flatMap_nil, List.append_nil]
  | cons next rest ih => rw [writeItems, ih next, List.flatMap_cons, List.cons_append]

def writePairs (pairs : List (Nat × List Char)) : List Char := '[' :: writeItems pairs ++ [']']

/-- A pair, and what follows it. -/
def readPair : List Char → Option ((Nat × List Char) × List Char)
  | '[' :: rest => do
      let number ← Decimal.parseNat (rest.takeWhile Char.isDigit)
      match rest.dropWhile Char.isDigit with
      | ',' :: '"' :: rest => do
          let (s, rest) ← readString rest
          match rest with
          | ']' :: rest => some ((number, s), rest)
          | _ => none
      | _ => none
  | _ => none

/-- The pairs of an array that is not empty, and its end. -/
def readItems : Nat → List Char → Option (List (Nat × List Char))
  | 0, _ => none
  | fuel + 1, text => do
      let (pair, rest) ← readPair text
      match rest with
      | ',' :: rest => (readItems fuel rest).map (pair :: ·)
      | [']'] => some [pair]
      | _ => none

/-- An array of pairs. -/
def readPairs : List Char → Option (List (Nat × List Char))
  | ['[', ']'] => some []
  | '[' :: rest => readItems rest.length rest
  | _ => none

theorem readPair_write (pair : Nat × List Char) (tail : List Char) :
    readPair (writePair pair ++ tail) = some (pair, tail) := by
  have digits : ∀ c ∈ Nat.toDigits 10 pair.1, c.isDigit = true := fun c member =>
    Nat.isDigit_of_mem_toDigits (by decide) (by decide) member
  have text : writePair pair ++ tail
      = '[' :: (Nat.toDigits 10 pair.1 ++ ',' :: '"' :: (pair.2.flatMap escape ++ '"' :: ']' :: tail)) := by
    simp [writePair, quote]
  have comma : ¬ Char.isDigit ',' = true := by decide
  have front : ∀ rest, (Nat.toDigits 10 pair.1 ++ ',' :: rest).takeWhile Char.isDigit = Nat.toDigits 10 pair.1 := by
    intro rest
    rw [List.takeWhile_append_of_pos digits, List.takeWhile_cons_of_neg comma, List.append_nil]
  have back : ∀ rest, (Nat.toDigits 10 pair.1 ++ ',' :: rest).dropWhile Char.isDigit = ',' :: rest := by
    intro rest
    rw [List.dropWhile_append_of_pos digits, List.dropWhile_cons_of_neg comma]
  rw [text, readPair, front, back, Decimal.parseNat_toDigits]
  change (do
    let (s, rest) ← readString (pair.2.flatMap escape ++ '"' :: ']' :: tail)
    match rest with
    | ']' :: rest => some ((pair.1, s), rest)
    | _ => none) = _
  rw [readString_quote]
  rfl

theorem readItems_write {pairs : List (Nat × List Char)} (some_pair : pairs ≠ []) {fuel : Nat}
    (enough : pairs.length ≤ fuel) : readItems fuel (writeItems pairs ++ [']']) = some pairs := by
  induction pairs generalizing fuel with
  | nil => exact absurd rfl some_pair
  | cons pair rest ih =>
      cases fuel with
      | zero => cases enough
      | succ fuel =>
          cases rest with
          | nil =>
              rw [writeItems, readItems, readPair_write]
              rfl
          | cons next rest =>
              have later := ih (List.cons_ne_nil next rest) (Nat.le_of_succ_le_succ enough)
              rw [writeItems, List.append_assoc, readItems, readPair_write]
              change (readItems fuel (writeItems (next :: rest) ++ [']'])).map (pair :: ·) = _
              rw [later]
              rfl

theorem length_writeItems (pairs : List (Nat × List Char)) : pairs.length ≤ (writeItems pairs).length := by
  induction pairs with
  | nil => exact Nat.le_refl _
  | cons pair rest ih =>
      have some_text : 0 < (writePair pair).length := by
        rw [writePair, List.length_append, List.length_cons]
        omega
      cases rest with
      | nil =>
          rw [writeItems]
          exact some_text
      | cons next rest =>
          simp only [writeItems, List.length_append, List.length_cons] at ih ⊢
          omega

/-- What is written of numbered strings reads as them. -/
theorem readPairs_write (pairs : List (Nat × List Char)) : readPairs (writePairs pairs) = some pairs := by
  cases pairs with
  | nil => rfl
  | cons pair rest =>
      have front : ∃ tail, writeItems (pair :: rest) = '[' :: tail := by
        cases rest with
        | nil => exact ⟨_, rfl⟩
        | cons next rest => exact ⟨_, rfl⟩
      rcases front with ⟨tail, front⟩
      have read : readItems (writeItems (pair :: rest) ++ [']']).length (writeItems (pair :: rest) ++ [']'])
          = some (pair :: rest) := by
        refine readItems_write (List.cons_ne_nil pair rest) ?_
        have long := length_writeItems (pair :: rest)
        rw [List.length_append]
        omega
      rw [front] at read
      rw [writePairs, front]
      exact read

/-! ## Lengths -/

theorem utf8Size_digit : ∀ n : Fin 10, ((Nat.toDigits 10 n).map Char.utf8Size).sum = 1 := by
  decide

/-- A pair of a digit and a plain string has six more bytes than the string. -/
theorem utf8Size_writePair {pair : Nat × List Char} (digit : pair.1 < 10) (plain : ∀ c ∈ pair.2, Plain c) :
    ((writePair pair).map Char.utf8Size).sum = 6 + (pair.2.map Char.utf8Size).sum := by
  have one := utf8Size_digit ⟨pair.1, digit⟩
  simp only at one
  have sizes : Char.utf8Size '[' = 1 ∧ Char.utf8Size ',' = 1 ∧ Char.utf8Size '"' = 1 ∧ Char.utf8Size ']' = 1 := by
    decide
  rw [writePair, quote_plain plain]
  simp only [List.map_append, List.map_cons, List.map_nil, List.sum_append, List.sum_cons, List.sum_nil, one,
    sizes.1, sizes.2.1, sizes.2.2.1, sizes.2.2.2]
  omega

end JsonText
