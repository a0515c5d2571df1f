import Mathlib.Data.List.TakeWhile
import Mathlib.Data.Nat.Digits.Defs
import Nightfall.Core.Json
import Nightfall.Core.Values

/-!
# JSON as text

`json.dumps` and `json.loads` of Python, on characters. A number keeps the text Python
writes it with (`canon`); a lone surrogate, which no text here can hold, is read as an
error.

* `Json.Plain`: what Python can hold: number texts that it writes, keys without repetition.
* `loads_dumps`: a plain value is read back as it was written, behind and before whitespace.
* `plain_of_loads`: what is read is plain.
-/
namespace Nightfall.Core

/-! ## Writing -/

/-- `"\\u" + format(n, "04x")`. -/
def hexEscape (n : Nat) : List Char :=
  '\\' :: 'u' :: [n / 4096, n / 256, n / 16, n].map fun d => Nat.digitChar (d % 16)

/-- A character of a text with `ensure_ascii`. -/
def escapeChar (c : Char) : List Char :=
  if c = '"' then ['\\', '"']
  else if c = '\\' then ['\\', '\\']
  else if c = '\n' then ['\\', 'n']
  else if c = '\r' then ['\\', 'r']
  else if c = '\t' then ['\\', 't']
  else if c.toNat = 12 then ['\\', 'f']
  else if c.toNat = 8 then ['\\', 'b']
  else if 32 ≤ c.toNat ∧ c.toNat ≤ 126 then [c]
  else if c.toNat < 0x10000 then hexEscape c.toNat
  else
    let n := c.toNat - 0x10000
    hexEscape (0xd800 + n / 0x400) ++ hexEscape (0xdc00 + n % 0x400)

def writeString (s : String) : List Char := '"' :: s.toList.flatMap escapeChar ++ ['"']

/-- What stands in a list or a dictionary with `n` others around it. -/
structure Gaps where
  /-- behind the opening bracket -/
  start : Nat → List Char
  /-- behind a comma -/
  item : Nat → List Char
  /-- behind a colon -/
  key : List Char
  /-- before the closing bracket -/
  stop : Nat → List Char

/-- No `indent`. -/
def oneLine : Gaps := ⟨fun _ => [], fun _ => [' '], [' '], fun _ => []⟩

def newline (width : Nat) : List Char := '\n' :: List.replicate width ' '

/-- `indent=k` -/
def indented (k : Nat) : Gaps :=
  ⟨fun n => newline (k * (n + 1)), fun n => newline (k * (n + 1)), [' '], fun n => newline (k * n)⟩

mutual
/-- `json.dumps`, with `n` lists and dictionaries around the value. -/
def dumps (g : Gaps) (n : Nat) : Json → List Char
  | .null => ['n', 'u', 'l', 'l']
  | .bool true => ['t', 'r', 'u', 'e']
  | .bool false => ['f', 'a', 'l', 's', 'e']
  | .num t => t.toList
  | .str s => writeString s
  | .arr [] => ['[', ']']
  | .arr (v :: vs) =>
    '[' :: g.start n ++ dumps g (n + 1) v ++ dumpItems g n vs ++ g.stop n ++ [']']
  | .obj [] => ['{', '}']
  | .obj ((k, v) :: fs) =>
    '{' :: g.start n ++ writeString k ++ ':' :: g.key ++ dumps g (n + 1) v ++ dumpFields g n fs ++
      g.stop n ++ ['}']

/-- Behind the first item. -/
def dumpItems (g : Gaps) (n : Nat) : List Json → List Char
  | [] => []
  | v :: vs => ',' :: g.item n ++ dumps g (n + 1) v ++ dumpItems g n vs

/-- Behind the first key with its value. -/
def dumpFields (g : Gaps) (n : Nat) : List (String × Json) → List Char
  | [] => []
  | (k, v) :: fs =>
    ',' :: g.item n ++ writeString k ++ ':' :: g.key ++ dumps g (n + 1) v ++ dumpFields g n fs
end

/-! ## Reading -/

/-- The whitespace of JSON. -/
def isWs (c : Char) : Bool := c = ' ' || c = '\t' || c = '\n' || c = '\r'

def skipWs (cs : List Char) : List Char := cs.dropWhile isWs

def hexValue (c : Char) : Option Nat :=
  if c.isDigit then some (c.toNat - 48)
  else if 'a' ≤ c ∧ c ≤ 'f' then some (c.toNat - 87)
  else if 'A' ≤ c ∧ c ≤ 'F' then some (c.toNat - 55)
  else none

def readHex : List Char → Option (Nat × List Char)
  | a :: b :: c :: d :: rest => do
    let a ← hexValue a
    let b ← hexValue b
    let c ← hexValue c
    let d ← hexValue d
    some (a * 4096 + b * 256 + c * 16 + d, rest)
  | _ => none

/-- The second half of a pair of surrogates. -/
def readLow (high : Nat) : List Char → Option (Char × List Char)
  | '\\' :: 'u' :: rest => do
    let (low, rest) ← readHex rest
    if 0xdc00 ≤ low ∧ low ≤ 0xdfff then
      some (Char.ofNat (0x10000 + (high - 0xd800) * 0x400 + (low - 0xdc00)), rest)
    else none
  | _ => none

/-- Behind a backslash. -/
def readEscape : List Char → Option (Char × List Char)
  | '"' :: rest => some ('"', rest)
  | '\\' :: rest => some ('\\', rest)
  | '/' :: rest => some ('/', rest)
  | 'b' :: rest => some (Char.ofNat 8, rest)
  | 'f' :: rest => some (Char.ofNat 12, rest)
  | 'n' :: rest => some ('\n', rest)
  | 'r' :: rest => some ('\r', rest)
  | 't' :: rest => some ('\t', rest)
  | 'u' :: rest => do
    let (n, rest) ← readHex rest
    if 0xd800 ≤ n ∧ n ≤ 0xdbff then readLow n rest
    else if 0xdc00 ≤ n ∧ n ≤ 0xdfff then none
    else some (Char.ofNat n, rest)
  | _ => none

/-- Behind the opening quote; `fuel` is at least the number of characters. -/
def readString : Nat → List Char → Option (List Char × List Char)
  | 0, _ => none
  | _ + 1, [] => none
  | fuel + 1, c :: rest =>
    if c = '"' then some ([], rest)
    else if c = '\\' then do
      let (c, rest) ← readEscape rest
      let (s, rest) ← readString fuel rest
      some (c :: s, rest)
    else if c.toNat < 32 then none
    else do
      let (s, rest) ← readString fuel rest
      some (c :: s, rest)

/-- The digits at the start. -/
def readDigits (cs : List Char) : List Char × List Char :=
  (cs.takeWhile Char.isDigit, cs.dropWhile Char.isDigit)

/-- `0|[1-9][0-9]*` -/
def readNat : List Char → Option (List Char × List Char)
  | [] => none
  | c :: rest =>
    if c = '0' then some (['0'], rest)
    else if c.isDigit then some (c :: (readDigits rest).1, (readDigits rest).2)
    else none

/-- `-?(0|[1-9][0-9]*)` -/
def readInt : List Char → Option (List Char × List Char)
  | [] => none
  | c :: rest =>
    if c = '-' then (readNat rest).map fun p => ('-' :: p.1, p.2) else readNat (c :: rest)

/-- `(\.[0-9]+)?` -/
def readFrac : List Char → List Char × List Char
  | [] => ([], [])
  | c :: rest =>
    if c = '.' ∧ (readDigits rest).1 ≠ [] then ('.' :: (readDigits rest).1, (readDigits rest).2)
    else ([], c :: rest)

/-- `[+-]?` -/
def readSign : List Char → List Char × List Char
  | [] => ([], [])
  | c :: rest => if c = '+' ∨ c = '-' then ([c], rest) else ([], c :: rest)

/-- `([eE][+-]?[0-9]+)?` -/
def readExp : List Char → List Char × List Char
  | [] => ([], [])
  | c :: rest =>
    let sign := readSign rest
    if (c = 'e' ∨ c = 'E') ∧ (readDigits sign.2).1 ≠ [] then
      (c :: (sign.1 ++ (readDigits sign.2).1), (readDigits sign.2).2)
    else ([], c :: rest)

def readNumber (cs : List Char) : Option (List Char × List Char) :=
  (readInt cs).map fun i =>
    let f := readFrac i.2
    let e := readExp f.2
    (i.1 ++ f.1 ++ e.1, e.2)

/-- `cs` starts with this word. -/
def readWord (word : String) (v : Json) (cs : List Char) : Option (Json × List Char) :=
  if word.toList <+: cs then some (v, cs.drop word.toList.length) else none

/-- A value that is no text, list or dictionary. -/
def readScalar (canon : String → String) (cs : List Char) : Option (Json × List Char) :=
  (readWord "null" .null cs).or <| (readWord "true" (.bool true) cs).or <|
    (readWord "false" (.bool false) cs).or <| (readWord "NaN" (.num "NaN") cs).or <|
    (readWord "Infinity" (.num "Infinity") cs).or <|
    (readWord "-Infinity" (.num "-Infinity") cs).or <|
    (readNumber cs).map fun p => (.num (canon (String.ofList p.1)), p.2)

mutual
def readValue (canon : String → String) : Nat → List Char → Option (Json × List Char)
  | 0, _ => none
  | _ + 1, [] => none
  | fuel + 1, c :: rest =>
    if c = '"' then (readString fuel rest).map fun p => (.str (String.ofList p.1), p.2)
    else if c = '[' then
      if (skipWs rest).head? = some ']' then some (.arr [], (skipWs rest).tail)
      else (readItems canon fuel (skipWs rest)).map fun p => (.arr p.1, p.2)
    else if c = '{' then
      if (skipWs rest).head? = some '}' then some (.obj [], (skipWs rest).tail)
      else (readFields canon fuel (skipWs rest)).map fun p => (.obj (dictOf p.1), p.2)
    else readScalar canon (c :: rest)

/-- From the first item on. -/
def readItems (canon : String → String) : Nat → List Char → Option (List Json × List Char)
  | 0, _ => none
  | fuel + 1, cs =>
    (readValue canon fuel cs).bind fun p =>
      if (skipWs p.2).head? = some ',' then
        (readItems canon fuel (skipWs (skipWs p.2).tail)).map fun q => (p.1 :: q.1, q.2)
      else if (skipWs p.2).head? = some ']' then some ([p.1], (skipWs p.2).tail)
      else none

/-- From the first key on. -/
def readFields (canon : String → String) : Nat → List Char →
    Option (List (String × Json) × List Char)
  | 0, _ => none
  | _ + 1, [] => none
  | fuel + 1, c :: rest =>
    if c ≠ '"' then none
    else (readString fuel rest).bind fun k =>
      if (skipWs k.2).head? ≠ some ':' then none
      else (readValue canon fuel (skipWs (skipWs k.2).tail)).bind fun p =>
        if (skipWs p.2).head? = some ',' then
          (readFields canon fuel (skipWs (skipWs p.2).tail)).map fun q =>
            ((String.ofList k.1, p.1) :: q.1, q.2)
        else if (skipWs p.2).head? = some '}' then
          some ([(String.ofList k.1, p.1)], (skipWs p.2).tail)
        else none
end

/-- `json.loads`, `none` for `JSONDecodeError`. -/
def loads (canon : String → String) (cs : List Char) : Option Json :=
  (readValue canon cs.length (skipWs cs)).bind fun p => if skipWs p.2 = [] then some p.1 else none

/-! ## Whitespace and runs -/

theorem skipWs_cons {c : Char} {rest : List Char} (h : isWs c = false) :
    skipWs (c :: rest) = c :: rest := by
  rw [skipWs, List.dropWhile_cons_of_neg (by simp [h])]

theorem skipWs_append {ws rest : List Char} (h : ∀ c ∈ ws, isWs c = true) :
    skipWs (ws ++ rest) = skipWs rest := by
  induction ws with
  | nil => rfl
  | cons c ws ih =>
    rw [List.cons_append, skipWs, List.dropWhile_cons_of_pos (h c List.mem_cons_self)]
    exact ih fun c hc => h c (List.mem_cons_of_mem _ hc)

theorem skipWs_all {ws : List Char} (h : ∀ c ∈ ws, isWs c = true) : skipWs ws = [] := by
  rw [← List.append_nil ws, skipWs_append h]
  rfl

/-- What follows does not go on with a run of `p`. -/
def Stops (p : Char → Bool) (rest : List Char) : Prop := ∀ c r, rest = c :: r → p c = false

theorem stops_nil {p : Char → Bool} : Stops p [] := fun _ _ h => by cases h

theorem stops_cons {p : Char → Bool} {c : Char} {r : List Char} (h : p c = false) :
    Stops p (c :: r) := by
  intro c' r' heq
  cases heq
  exact h

theorem Stops.mono {p q : Char → Bool} {rest : List Char} (h : Stops p rest)
    (hpq : ∀ c, q c = true → p c = true) : Stops q rest := by
  intro c r heq
  have hc := h c r heq
  cases hq : q c with
  | false => rfl
  | true => rw [hpq c hq] at hc; cases hc

theorem takeWhile_append_stops {p : Char → Bool} {rest : List Char} (h : Stops p rest) :
    ∀ ds : List Char, (ds ++ rest).takeWhile p = ds.takeWhile p ∧
      (ds ++ rest).dropWhile p = ds.dropWhile p ++ rest
  | [] => by
    cases rest with
    | nil => exact ⟨rfl, rfl⟩
    | cons c r =>
      have hc := h c r rfl
      simp [hc]
  | d :: ds => by
    by_cases hd : p d = true
    · simp [hd, takeWhile_append_stops h ds]
    · simp [hd]

/-! ## Texts -/

theorem hexValue_digitChar : ∀ d < 16, hexValue (Nat.digitChar d) = some d := by decide

theorem readHex_hexEscape {n : Nat} (h : n < 65536) (rest : List Char) :
    readHex (([n / 4096, n / 256, n / 16, n].map fun d => Nat.digitChar (d % 16)) ++ rest) =
      some (n, rest) := by
  have hd : ∀ m : Nat, hexValue (Nat.digitChar (m % 16)) = some (m % 16) := fun m =>
    hexValue_digitChar _ (Nat.mod_lt _ (by decide))
  simp only [List.map_cons, List.map_nil, List.cons_append, List.nil_append, readHex, hd,
    Option.bind_eq_bind, Option.bind_some, Option.some.injEq, Prod.mk.injEq, and_true]
  omega

/-- A character of the basic plane is no half of a pair. -/
theorem not_surrogate (c : Char) : ¬ (0xd800 ≤ c.toNat ∧ c.toNat ≤ 0xdfff) := by
  have hvalid : c.toNat < 0xd800 ∨ 0xdfff < c.toNat ∧ c.toNat < 0x110000 := c.valid
  omega

theorem toNat_lt (c : Char) : c.toNat < 0x110000 := by
  have hvalid : c.toNat < 0xd800 ∨ 0xdfff < c.toNat ∧ c.toNat < 0x110000 := c.valid
  omega

theorem readEscape_plane {c : Char} (h : c.toNat < 0x10000) (rest : List Char) :
    readEscape (([c.toNat / 4096, c.toNat / 256, c.toNat / 16, c.toNat].map fun d =>
      Nat.digitChar (d % 16)).cons 'u' ++ rest) = some (c, rest) := by
  have hs := not_surrogate c
  rw [List.cons_append, readEscape, readHex_hexEscape h]
  simp only [Option.bind_eq_bind, Option.bind_some]
  rw [if_neg (by omega), if_neg (by omega), Char.ofNat_toNat]

/-- Reading a backslash and what belongs to it. -/
theorem readString_escape {c : Char} {fuel : Nat} {cs rest s r : List Char}
    (hc : readEscape cs = some (c, rest)) (h : readString fuel rest = some (s, r)) :
    readString (fuel + 1) ('\\' :: cs) = some (c :: s, r) := by
  rw [readString, if_neg (by decide), if_pos rfl]
  simp [hc, h]

theorem readLow_hexEscape {high low : Nat} (hlow : 0xdc00 ≤ low ∧ low ≤ 0xdfff)
    (rest : List Char) : readLow high (hexEscape low ++ rest) =
      some (Char.ofNat (0x10000 + (high - 0xd800) * 0x400 + (low - 0xdc00)), rest) := by
  rw [hexEscape, List.cons_append, List.cons_append, readLow, readHex_hexEscape (by omega)]
  simp only [Option.bind_eq_bind, Option.bind_some]
  rw [if_pos hlow]

theorem readEscape_pair {high low : Nat} (hhigh : 0xd800 ≤ high ∧ high ≤ 0xdbff)
    (hlow : 0xdc00 ≤ low ∧ low ≤ 0xdfff) (rest : List Char) :
    readEscape ((hexEscape high ++ hexEscape low ++ rest).tail) =
      some (Char.ofNat (0x10000 + (high - 0xd800) * 0x400 + (low - 0xdc00)), rest) := by
  have htail : (hexEscape high ++ hexEscape low ++ rest).tail = 'u' ::
      (([high / 4096, high / 256, high / 16, high].map fun d => Nat.digitChar (d % 16)) ++
        (hexEscape low ++ rest)) := by
    rw [List.append_assoc]
    rfl
  rw [htail, readEscape, readHex_hexEscape (by omega)]
  simp only [Option.bind_eq_bind, Option.bind_some]
  rw [if_pos hhigh, readLow_hexEscape hlow]

/-- The pair of surrogates of a character beyond the basic plane. -/
theorem pair_toNat {n : Nat} (h : 0x10000 ≤ n) (hlt : n < 0x110000) :
    (0xd800 ≤ 0xd800 + (n - 0x10000) / 0x400 ∧ 0xd800 + (n - 0x10000) / 0x400 ≤ 0xdbff) ∧
    (0xdc00 ≤ 0xdc00 + (n - 0x10000) % 0x400 ∧ 0xdc00 + (n - 0x10000) % 0x400 ≤ 0xdfff) ∧
    0x10000 + (0xd800 + (n - 0x10000) / 0x400 - 0xd800) * 0x400 +
      (0xdc00 + (n - 0x10000) % 0x400 - 0xdc00) = n := by omega

theorem char_of_toNat {c : Char} {n : Nat} (h : c.toNat = n) : Char.ofNat n = c := by
  rw [← h, Char.ofNat_toNat]

theorem readString_escapeChar {c : Char} {fuel : Nat} {rest s r : List Char}
    (h : readString fuel rest = some (s, r)) :
    readString (fuel + 1) (escapeChar c ++ rest) = some (c :: s, r) := by
  unfold escapeChar
  split
  · next hc =>
    subst hc
    exact readString_escape rfl h
  split
  · next hc =>
    subst hc
    exact readString_escape rfl h
  split
  · next hc =>
    subst hc
    exact readString_escape rfl h
  split
  · next hc =>
    subst hc
    exact readString_escape rfl h
  split
  · next hc =>
    subst hc
    exact readString_escape rfl h
  split
  · next hc =>
    obtain rfl := char_of_toNat hc
    exact readString_escape rfl h
  split
  · next hc =>
    obtain rfl := char_of_toNat hc
    exact readString_escape rfl h
  split
  · next hquote hslash _ _ _ _ _ hplain =>
    rw [List.singleton_append, readString, if_neg hquote, if_neg hslash, if_neg (by omega), h]
    rfl
  split
  · next hplane => exact readString_escape (readEscape_plane hplane rest) h
  · next hplane =>
    obtain ⟨hhigh, hlow, hn⟩ := pair_toNat (Nat.le_of_not_lt hplane) (toNat_lt c)
    refine readString_escape ?_ h
    have hpair := readEscape_pair hhigh hlow rest
    rw [char_of_toNat hn.symm] at hpair
    exact hpair

theorem readString_write (s : List Char) (rest : List Char) : ∀ {fuel : Nat}, s.length < fuel →
    readString fuel (s.flatMap escapeChar ++ '"' :: rest) = some (s, rest) := by
  induction s with
  | nil =>
    intro fuel hfuel
    obtain ⟨n, rfl⟩ := Nat.exists_eq_succ_of_ne_zero (Nat.ne_of_gt hfuel)
    rfl
  | cons c s ih =>
    intro fuel hfuel
    obtain ⟨n, rfl⟩ := Nat.exists_eq_succ_of_ne_zero (Nat.ne_of_gt (Nat.zero_lt_of_lt hfuel))
    rw [List.flatMap_cons, List.append_assoc]
    exact readString_escapeChar (ih (Nat.lt_of_succ_lt_succ hfuel))

theorem length_escapeChar (c : Char) : 1 ≤ (escapeChar c).length := by
  unfold escapeChar
  split_ifs <;> simp [hexEscape]

theorem length_writeString (s : String) : s.toList.length + 2 ≤ (writeString s).length := by
  have hflat : ∀ cs : List Char, cs.length ≤ (cs.flatMap escapeChar).length := by
    intro cs
    induction cs with
    | nil => exact le_refl _
    | cons c cs ih =>
      have hc := length_escapeChar c
      rw [List.flatMap_cons, List.length_append, List.length_cons]
      omega
  have h := hflat s.toList
  simp only [writeString, List.length_append, List.length_cons, List.length_nil]
  omega

/-! ## Numbers -/

/-- The characters a number may go on with. -/
def numberChar (c : Char) : Bool :=
  c.isDigit || c = '.' || c = 'e' || c = 'E' || c = '+' || c = '-'

theorem numberChar_of_isDigit (c : Char) (h : c.isDigit = true) : numberChar c = true := by
  simp [numberChar, h]

theorem readDigits_again {rest : List Char} (h : Stops Char.isDigit rest) (ds : List Char) :
    readDigits ((readDigits ds).1 ++ rest) = ((readDigits ds).1, rest) := by
  have hall : ∀ c ∈ (readDigits ds).1, c.isDigit = true := fun _ hc => List.mem_takeWhile_imp hc
  obtain ⟨htake, hdrop⟩ := takeWhile_append_stops h (readDigits ds).1
  rw [List.takeWhile_eq_self_iff.mpr hall] at htake
  rw [List.dropWhile_eq_nil_iff.mpr hall] at hdrop
  rw [readDigits, htake, hdrop]
  rfl

section Again
variable {cs rest t r : List Char}

theorem readNat_again (h : readNat cs = some (t, r)) (hstop : Stops Char.isDigit rest) :
    readNat (t ++ rest) = some (t, rest) := by
  cases cs with
  | nil => cases h
  | cons c cs =>
    rw [readNat] at h
    split at h
    · obtain ⟨rfl, -⟩ := Prod.mk.inj (Option.some.inj h)
      rfl
    · next hc =>
      split at h
      · next hd =>
        obtain ⟨rfl, -⟩ := Prod.mk.inj (Option.some.inj h)
        rw [List.cons_append, readNat, if_neg hc, if_pos hd, readDigits_again hstop]
      · cases h

theorem readNat_head (h : readNat cs = some (t, r)) : ∃ c t', t = c :: t' ∧ c.isDigit = true := by
  cases cs with
  | nil => cases h
  | cons c cs =>
    rw [readNat] at h
    split at h
    · obtain ⟨rfl, -⟩ := Prod.mk.inj (Option.some.inj h)
      exact ⟨'0', [], rfl, rfl⟩
    · split at h
      · next hd =>
        obtain ⟨rfl, -⟩ := Prod.mk.inj (Option.some.inj h)
        exact ⟨c, _, rfl, hd⟩
      · cases h

theorem ne_of_isDigit {c d : Char} (hd : d.isDigit = true) (hc : c.isDigit = false) : c ≠ d := by
  rintro rfl
  rw [hc] at hd
  cases hd

theorem readInt_again (h : readInt cs = some (t, r)) (hstop : Stops Char.isDigit rest) :
    readInt (t ++ rest) = some (t, rest) := by
  cases cs with
  | nil => cases h
  | cons c cs =>
    rw [readInt] at h
    split at h
    · obtain ⟨p, hp, heq⟩ := Option.map_eq_some_iff.mp h
      obtain ⟨rfl, -⟩ := Prod.mk.inj heq
      rw [List.cons_append, readInt, if_pos rfl, readNat_again hp hstop]
      rfl
    · obtain ⟨d, t', rfl, hd⟩ := readNat_head h
      have hagain := readNat_again h hstop
      rw [List.cons_append] at hagain ⊢
      rw [readInt, if_neg (ne_of_isDigit hd rfl).symm, hagain]

theorem readFrac_again (hstop : Stops Char.isDigit rest) (hdot : Stops (· = '.') rest) :
    readFrac ((readFrac cs).1 ++ rest) = ((readFrac cs).1, rest) := by
  have hempty : readFrac rest = ([], rest) := by
    cases rest with
    | nil => rfl
    | cons c r => rw [readFrac, if_neg fun h => by simpa [h.1] using hdot c r rfl]
  cases cs with
  | nil => exact hempty
  | cons c cs =>
    rw [readFrac]
    split
    · next h =>
      rw [List.cons_append, readFrac, readDigits_again hstop, if_pos ⟨rfl, h.2⟩]
    · exact hempty

theorem readSign_again (hsign : Stops (fun c => c = '+' || c = '-') rest) :
    readSign ((readSign cs).1 ++ rest) = ((readSign cs).1, rest) := by
  have hempty : readSign rest = ([], rest) := by
    cases rest with
    | nil => rfl
    | cons c r =>
      have hc := hsign c r rfl
      rw [readSign, if_neg]
      rintro (rfl | rfl)
      · cases hc
      · cases hc
  cases cs with
  | nil => exact hempty
  | cons c cs =>
    rw [readSign]
    split
    · next h => rw [List.singleton_append, readSign, if_pos h]
    · exact hempty

theorem readExp_again (hstop : Stops numberChar rest) :
    readExp ((readExp cs).1 ++ rest) = ((readExp cs).1, rest) := by
  have hempty : readExp rest = ([], rest) := by
    cases rest with
    | nil => rfl
    | cons c r =>
      have hc := hstop c r rfl
      rw [readExp, if_neg]
      rintro ⟨rfl | rfl, -⟩
      · cases hc
      · cases hc
  cases cs with
  | nil => exact hempty
  | cons c cs =>
    rw [readExp]
    split
    · next h =>
      have hsign : Stops (fun c => c = '+' || c = '-')
          ((readDigits (readSign cs).2).1 ++ rest) := by
        obtain ⟨d, ds, hds⟩ := List.exists_cons_of_ne_nil h.2
        have hmem : d ∈ (readDigits (readSign cs).2).1 := by
          rw [hds]
          exact List.mem_cons_self
        have hd : d.isDigit = true := List.mem_takeWhile_imp hmem
        rw [hds]
        refine stops_cons ?_
        simp [(ne_of_isDigit hd (show ('+' : Char).isDigit = false from rfl)).symm,
          (ne_of_isDigit hd (show ('-' : Char).isDigit = false from rfl)).symm]
      rw [List.cons_append, List.append_assoc, readExp, readSign_again hsign,
        readDigits_again (hstop.mono numberChar_of_isDigit), if_pos ⟨h.1, h.2⟩]
    · exact hempty

/-- What stands in front of an exponent or of the end. -/
theorem stops_readExp (p : Char → Bool) (he : p 'e' = false) (hE : p 'E' = false)
    (hstop : Stops p rest) : Stops p ((readExp cs).1 ++ rest) := by
  cases cs with
  | nil => exact hstop
  | cons c cs =>
    rw [readExp]
    split
    · next h =>
      refine stops_cons ?_
      rcases h.1 with rfl | rfl
      · exact he
      · exact hE
    · exact hstop

theorem stops_readFrac (hstop : Stops Char.isDigit rest) :
    Stops Char.isDigit ((readFrac cs).1 ++ rest) := by
  cases cs with
  | nil => exact hstop
  | cons c cs =>
    rw [readFrac]
    split
    · exact stops_cons rfl
    · exact hstop

/-- The number that was read is read again, in front of whatever does not go on with it. -/
theorem readNumber_again (h : readNumber cs = some (t, r)) (hstop : Stops numberChar rest) :
    readNumber (t ++ rest) = some (t, rest) := by
  obtain ⟨i, hi, heq⟩ := Option.map_eq_some_iff.mp h
  obtain ⟨rfl, rfl⟩ := Prod.mk.inj heq
  have hexp : readExp ((readExp (readFrac i.2).2).1 ++ rest) = ((readExp (readFrac i.2).2).1, rest) :=
    readExp_again hstop
  have hdigit : Stops Char.isDigit ((readExp (readFrac i.2).2).1 ++ rest) :=
    stops_readExp Char.isDigit rfl rfl (hstop.mono numberChar_of_isDigit)
  have hdot : Stops (· = '.') ((readExp (readFrac i.2).2).1 ++ rest) :=
    stops_readExp (· = '.') rfl rfl
      (hstop.mono fun c hc => by simp only [decide_eq_true_eq] at hc; subst hc; rfl)
  rw [List.append_assoc, List.append_assoc, readNumber,
    readInt_again hi (stops_readFrac hdigit), Option.map_some]
  dsimp only
  rw [readFrac_again hdigit hdot]
  dsimp only
  rw [hexp]

end Again

/-! ## Plain values -/

def IsToken (t : String) : Prop := readNumber t.toList = some (t.toList, [])

/-- What Python writes a number with. -/
def PlainNumber (canon : String → String) (t : String) : Prop :=
  t = "NaN" ∨ t = "Infinity" ∨ t = "-Infinity" ∨ IsToken t ∧ canon t = t

/-- `canon` is `str(int(..))` or `repr(float(..))` of a number. -/
def Canonical (canon : String → String) : Prop := ∀ t, IsToken t → PlainNumber canon (canon t)

mutual
def Json.Plain (canon : String → String) : Json → Prop
  | .num t => PlainNumber canon t
  | .arr items => PlainItems canon items
  | .obj fields => (fields.map Prod.fst).Nodup ∧ PlainFields canon fields
  | .null => True
  | .bool _ => True
  | .str _ => True

def PlainItems (canon : String → String) : List Json → Prop
  | [] => True
  | v :: vs => v.Plain canon ∧ PlainItems canon vs

def PlainFields (canon : String → String) : List (String × Json) → Prop
  | [] => True
  | f :: fs => f.2.Plain canon ∧ PlainFields canon fs
end

section Integers

theorem toDigits_head {n : Nat} : 0 < n → ∃ c cs, Nat.toDigits 10 n = c :: cs ∧ c ≠ '0' := by
  induction n using Nat.strong_induction_on with
  | _ n ih =>
    intro hn
    by_cases hlt : n < 10
    · exact ⟨_, [], Nat.toDigits_of_lt_base hlt, fun h => by
        rw [Nat.digitChar_eq_zero] at h
        omega⟩
    · obtain ⟨c, cs, heq, hc⟩ := ih (n / 10) (by omega) (by omega)
      exact ⟨c, _, by rw [Nat.toDigits_of_base_le (by decide) (by omega), heq]; rfl, hc⟩

theorem readDigits_all {ds : List Char} (h : ∀ c ∈ ds, c.isDigit = true) :
    readDigits ds = (ds, []) := by
  rw [readDigits, List.takeWhile_eq_self_iff.mpr h, List.dropWhile_eq_nil_iff.mpr h]

theorem readNat_toDigits (n : Nat) : readNat (Nat.toDigits 10 n) = some (Nat.toDigits 10 n, []) := by
  rcases Nat.eq_zero_or_pos n with rfl | hn
  · rfl
  · have hdigits : ∀ c ∈ Nat.toDigits 10 n, c.isDigit = true := fun c hc =>
      Nat.isDigit_of_mem_toDigits (by decide) (by decide) hc
    obtain ⟨c, cs, heq, hc⟩ := toDigits_head hn
    rw [heq] at hdigits ⊢
    rw [List.forall_mem_cons] at hdigits
    rw [readNat, if_neg hc, if_pos hdigits.1, readDigits_all hdigits.2]

theorem isToken_nat (n : Nat) : IsToken (String.ofList (Nat.toDigits 10 n)) := by
  obtain ⟨c, cs, heq⟩ := List.exists_cons_of_ne_nil (@Nat.toDigits_ne_nil n 10)
  have hc : c.isDigit = true :=
    Nat.isDigit_of_mem_toDigits (by decide) (by decide) (heq ▸ List.mem_cons_self)
  have hread := readNat_toDigits n
  rw [heq] at hread
  rw [IsToken, String.toList_ofList, heq, readNumber, readInt,
    if_neg (ne_of_isDigit hc rfl).symm, hread]
  simp [readFrac, readExp]

theorem isToken_neg (n : Nat) : IsToken (String.ofList ('-' :: Nat.toDigits 10 n)) := by
  rw [IsToken, String.toList_ofList, readNumber, readInt, if_pos rfl, readNat_toDigits]
  simp [readFrac, readExp]

/-- `str(n)` of a whole number. -/
theorem isToken_int (n : Int) : IsToken (toString n) := by
  rw [Int.toString_eq_repr, Int.repr_eq_if]
  split
  · rw [Nat.repr_eq_ofList_toDigits]
    exact isToken_nat _
  · have hneg : "-" ++ (-n).toNat.repr = String.ofList ('-' :: Nat.toDigits 10 (-n).toNat) :=
      String.toList_inj.mp (by simp)
    rw [hneg]
    exact isToken_neg _

end Integers

/-- Only whitespace in the gaps. -/
structure Gaps.Blank (g : Gaps) : Prop where
  start : ∀ n, ∀ c ∈ g.start n, isWs c = true
  item : ∀ n, ∀ c ∈ g.item n, isWs c = true
  key : ∀ c ∈ g.key, isWs c = true
  stop : ∀ n, ∀ c ∈ g.stop n, isWs c = true

theorem blank_oneLine : oneLine.Blank where
  start := fun _ _ h => by cases h
  item := fun _ _ h => by
    obtain rfl := List.mem_singleton.mp h
    rfl
  key := fun _ h => by
    obtain rfl := List.mem_singleton.mp h
    rfl
  stop := fun _ _ h => by cases h

theorem isWs_newline {width : Nat} : ∀ c ∈ newline width, isWs c = true := fun c h => by
  rcases List.mem_cons.mp h with rfl | h
  · rfl
  · rw [List.eq_of_mem_replicate h]
    rfl

theorem blank_indented (k : Nat) : (indented k).Blank where
  start := fun _ => isWs_newline
  item := fun _ => isWs_newline
  key := blank_oneLine.key
  stop := fun _ => isWs_newline

section Scalars
variable {canon : String → String} {rest : List Char}

theorem readWord_self {word : String} {v : Json} :
    readWord word v (word.toList ++ rest) = some (v, rest) := by
  rw [readWord, if_pos (List.prefix_append _ _), List.drop_left]

theorem readWord_head {word : String} {v : Json} {w c : Char} {ws cs : List Char}
    (hword : word.toList = w :: ws) (h : w ≠ c) : readWord word v (c :: cs) = none := by
  rw [readWord, hword, if_neg]
  rw [List.cons_prefix_cons]
  exact fun hp => h hp.1

/-- How a number starts. -/
theorem readNumber_head {cs t r : List Char} (h : readNumber cs = some (t, r)) :
    ∃ c t', t = c :: t' ∧ (c.isDigit = true ∨
      c = '-' ∧ ∃ d t'', t' = d :: t'' ∧ d.isDigit = true) := by
  obtain ⟨i, hi, heq⟩ := Option.map_eq_some_iff.mp h
  obtain ⟨rfl, -⟩ := Prod.mk.inj heq
  cases cs with
  | nil => cases hi
  | cons c cs =>
    rw [readInt] at hi
    split at hi
    · obtain ⟨p, hp, rfl⟩ := Option.map_eq_some_iff.mp hi
      obtain ⟨d, t', hd, hdigit⟩ := readNat_head (t := p.1) (r := p.2) hp
      rw [hd]
      exact ⟨'-', _, rfl, .inr ⟨rfl, d, _, rfl, hdigit⟩⟩
    · obtain ⟨d, t', hd, hdigit⟩ := readNat_head (t := i.1) (r := i.2) hi
      rw [hd]
      exact ⟨d, _, rfl, .inl hdigit⟩

theorem readScalar_number {t : String} (h : IsToken t) (hcanon : canon t = t)
    (hstop : Stops numberChar rest) :
    readScalar canon (t.toList ++ rest) = some (.num t, rest) := by
  have hnum := readNumber_again h hstop
  obtain ⟨c, cs, heq, hhead⟩ := readNumber_head h
  have hwords : ∀ {word : String} {v : Json} {w : Char} {ws : List Char}, word.toList = w :: ws →
      w.isDigit = false → w ≠ '-' → readWord word v (t.toList ++ rest) = none := by
    intro word v w ws hword hw hminus
    rw [heq, List.cons_append]
    refine readWord_head hword ?_
    rcases hhead with hd | ⟨rfl, -⟩
    · exact ne_of_isDigit hd hw
    · exact hminus
  have hminus : readWord "-Infinity" (.num "-Infinity") (t.toList ++ rest) = none := by
    rw [heq, List.cons_append]
    rcases hhead with hd | ⟨rfl, d, cs', rfl, hd⟩
    · exact readWord_head rfl (ne_of_isDigit hd rfl)
    · rw [readWord, if_neg]
      change ¬ '-' :: 'I' :: _ <+: '-' :: d :: _
      rw [List.cons_prefix_cons, List.cons_prefix_cons]
      exact fun hp => ne_of_isDigit hd (c := 'I') rfl hp.2.1
  rw [readScalar, hwords rfl rfl (by decide), hwords rfl rfl (by decide),
    hwords rfl rfl (by decide), hwords rfl rfl (by decide), hwords rfl rfl (by decide), hminus, hnum]
  simp [hcanon]

theorem plainNumber_head {t : String} (h : PlainNumber canon t) :
    ∃ c cs, t.toList = c :: cs ∧ (c.isDigit = true ∨ c = '-' ∨ c = 'N' ∨ c = 'I') := by
  rcases h with rfl | rfl | rfl | ⟨h, -⟩
  · exact ⟨'N', _, rfl, by decide⟩
  · exact ⟨'I', _, rfl, by decide⟩
  · exact ⟨'-', _, rfl, by decide⟩
  · obtain ⟨c, cs, heq, hhead⟩ := readNumber_head h
    exact ⟨c, cs, heq, hhead.imp_right fun hm => .inl hm.1⟩

theorem readScalar_plain {t : String} (h : PlainNumber canon t) (hstop : Stops numberChar rest) :
    readScalar canon (t.toList ++ rest) = some (.num t, rest) := by
  rcases h with rfl | rfl | rfl | ⟨h, hcanon⟩
  · rw [readScalar, readWord_self]
    rfl
  · rw [readScalar, readWord_self]
    rfl
  · rw [readScalar, readWord_self]
    rfl
  · exact readScalar_number h hcanon hstop

/-- A value starts with no whitespace and no closing bracket. -/
theorem dumps_head {g : Gaps} {n : Nat} {v : Json} (h : v.Plain canon) :
    ∃ c cs, dumps g n v = c :: cs ∧ isWs c = false ∧ c ≠ ']' := by
  cases v with
  | null => exact ⟨'n', _, rfl, by decide⟩
  | bool b => cases b <;> exact ⟨_, _, rfl, by decide⟩
  | num t =>
    obtain ⟨c, cs, heq, hhead⟩ := plainNumber_head h
    refine ⟨c, cs, heq, ?_⟩
    rcases hhead with hd | rfl | rfl | rfl
    · have hne : ∀ d : Char, d.isDigit = false → c ≠ d := fun d hd' => (ne_of_isDigit hd hd').symm
      simp [isWs, hne]
    · decide
    · decide
    · decide
  | str s => exact ⟨'"', _, rfl, by decide⟩
  | arr items => cases items <;> exact ⟨'[', _, rfl, by decide⟩
  | obj fields => cases fields <;> exact ⟨'{', _, rfl, by decide⟩

theorem readValue_scalar {fuel : Nat} {c : Char} {cs : List Char}
    (h : c ≠ '"' ∧ c ≠ '[' ∧ c ≠ '{') :
    readValue canon (fuel + 1) (c :: cs) = readScalar canon (c :: cs) := by
  rw [readValue, if_neg h.1, if_neg h.2.1, if_neg h.2.2]

theorem readValue_number {fuel : Nat} {t : String} (h : PlainNumber canon t)
    (hstop : Stops numberChar rest) :
    readValue canon (fuel + 1) (t.toList ++ rest) = some (.num t, rest) := by
  have hread := readScalar_plain h hstop
  obtain ⟨c, cs, heq, hhead⟩ := plainNumber_head h
  rw [heq, List.cons_append] at hread ⊢
  rw [readValue_scalar ?_, hread]
  rcases hhead with hd | rfl | rfl | rfl
  · exact ⟨(ne_of_isDigit hd rfl).symm, (ne_of_isDigit hd rfl).symm, (ne_of_isDigit hd rfl).symm⟩
  · decide
  · decide
  · decide

theorem readValue_string {fuel : Nat} {s : String} (h : s.toList.length < fuel) :
    readValue canon (fuel + 1) (writeString s ++ rest) = some (.str s, rest) := by
  rw [writeString, List.cons_append, List.cons_append, List.append_assoc, readValue, if_pos rfl,
    List.singleton_append, readString_write s.toList rest h]
  simp

end Scalars

/-! ## What is written is read back -/

theorem stops_blank {ws rest : List Char} (hws : ∀ c ∈ ws, isWs c = true)
    (h : Stops numberChar rest) : Stops numberChar (ws ++ rest) := by
  cases ws with
  | nil => exact h
  | cons c cs =>
    have hc := hws c List.mem_cons_self
    simp only [isWs, Bool.or_eq_true, decide_eq_true_eq] at hc
    rcases hc with ((rfl | rfl) | rfl) | rfl <;> exact stops_cons rfl

section RoundTrip
variable {canon : String → String} {g : Gaps}

/-- Past a gap to a value. -/
theorem skipWs_value {ws rest : List Char} {n : Nat} {v : Json} (hws : ∀ c ∈ ws, isWs c = true)
    (h : v.Plain canon) : skipWs (ws ++ (dumps g n v ++ rest)) = dumps g n v ++ rest := by
  obtain ⟨c, cs, heq, hc, -⟩ := @dumps_head canon g n v h
  rw [skipWs_append hws, heq, List.cons_append, skipWs_cons hc]

/-- Past a gap to a key. -/
theorem skipWs_string {ws rest : List Char} {s : String} (hws : ∀ c ∈ ws, isWs c = true) :
    skipWs (ws ++ (writeString s ++ rest)) = writeString s ++ rest := by
  rw [skipWs_append hws, writeString, List.cons_append, List.cons_append, skipWs_cons rfl]

/-- Past a gap to a bracket. -/
theorem skipWs_bracket {ws rest : List Char} {c : Char} (hws : ∀ c ∈ ws, isWs c = true)
    (hc : isWs c = false) : skipWs (ws ++ c :: rest) = c :: rest := by
  rw [skipWs_append hws, skipWs_cons hc]

theorem succ_of_le {n fuel : Nat} (h : n + 1 ≤ fuel) : ∃ m, fuel = m + 1 ∧ n ≤ m :=
  ⟨fuel - 1, by omega, by omega⟩

mutual
theorem readValue_dumps (hg : g.Blank) : ∀ (v : Json) {n fuel : Nat} {rest : List Char},
    v.Plain canon → (dumps g n v).length ≤ fuel → Stops numberChar rest →
    readValue canon fuel (dumps g n v ++ rest) = some (v, rest)
  | .null, _, _, _, _, hfuel, _ => by
    obtain ⟨m, rfl, -⟩ := succ_of_le hfuel
    rfl
  | .bool true, _, _, _, _, hfuel, _ => by
    obtain ⟨m, rfl, -⟩ := succ_of_le hfuel
    rfl
  | .bool false, _, _, _, _, hfuel, _ => by
    obtain ⟨m, rfl, -⟩ := succ_of_le hfuel
    rfl
  | .num t, _, fuel, _, h, hfuel, hstop => by
    obtain ⟨c, cs, heq, -⟩ := plainNumber_head h
    rw [dumps, heq, List.length_cons] at hfuel
    obtain ⟨m, rfl, -⟩ := succ_of_le hfuel
    exact readValue_number h hstop
  | .str s, _, fuel, _, _, hfuel, _ => by
    have hlen := length_writeString s
    rw [dumps] at hfuel
    obtain ⟨m, rfl, hm⟩ := succ_of_le ((Nat.le_succ _).trans (hlen.trans hfuel))
    exact readValue_string (by omega)
  | .arr [], _, _, _, _, hfuel, _ => by
    obtain ⟨m, rfl, -⟩ := succ_of_le hfuel
    rfl
  | .arr (v :: vs), n, fuel, rest, h, hfuel, _ => by
    simp only [dumps, List.length_append, List.length_cons, List.length_nil] at hfuel
    have hfuel' : (dumps g (n + 1) v).length + (dumpItems g n vs).length + 1 + 1 ≤ fuel := by omega
    obtain ⟨m, rfl, hm⟩ := succ_of_le hfuel'
    have hread : readItems canon m
        (dumps g (n + 1) v ++ (dumpItems g n vs ++ (g.stop n ++ ']' :: rest))) =
      some (v :: vs, rest) := readItems_dumps hg vs v h.1 h.2 (by omega)
    obtain ⟨c, cs, heq, hws, hc⟩ := @dumps_head canon g (n + 1) v h.1
    have hcs : '[' :: g.start n ++ dumps g (n + 1) v ++ dumpItems g n vs ++ g.stop n ++ [']'] ++
        rest = '[' :: (g.start n ++
          (dumps g (n + 1) v ++ (dumpItems g n vs ++ (g.stop n ++ ']' :: rest)))) := by simp
    rw [dumps, hcs, readValue, if_neg (by decide), if_pos rfl, skipWs_value (hg.start n) h.1]
    rw [heq, List.cons_append] at hread ⊢
    rw [if_neg (by simpa using hc), hread]
    rfl
  | .obj [], _, _, _, _, hfuel, _ => by
    obtain ⟨m, rfl, -⟩ := succ_of_le hfuel
    rfl
  | .obj ((k, v) :: fs), n, fuel, rest, h, hfuel, _ => by
    simp only [dumps, List.length_append, List.length_cons, List.length_nil] at hfuel
    have hfuel' : (writeString k).length + g.key.length + (dumps g (n + 1) v).length +
      (dumpFields g n fs).length + 1 + 1 ≤ fuel := by omega
    obtain ⟨m, rfl, hm⟩ := succ_of_le hfuel'
    have hread : readFields canon m (writeString k ++ ':' :: (g.key ++
        (dumps g (n + 1) v ++ (dumpFields g n fs ++ (g.stop n ++ '}' :: rest))))) =
      some ((k, v) :: fs, rest) := readFields_dumps hg fs k v h.2.1 h.2.2 (by omega)
    have hcs : '{' :: g.start n ++ writeString k ++ ':' :: g.key ++ dumps g (n + 1) v ++
        dumpFields g n fs ++ g.stop n ++ ['}'] ++ rest =
        '{' :: (g.start n ++ (writeString k ++ ':' :: (g.key ++
          (dumps g (n + 1) v ++ (dumpFields g n fs ++ (g.stop n ++ '}' :: rest)))))) := by simp
    have hhead : ∀ r, (writeString k ++ r).head? ≠ some '}' := fun r h =>
      absurd (Option.some.inj h) (by decide)
    rw [dumps, hcs, readValue, if_neg (by decide), if_neg (by decide), if_pos rfl,
      skipWs_string (hg.start n), if_neg (hhead _), hread, Option.map_some, dictOf_of_nodup h.1]
termination_by v => sizeOf v

theorem readItems_dumps (hg : g.Blank) : ∀ (vs : List Json) (v : Json) {n fuel : Nat}
    {rest : List Char}, v.Plain canon → PlainItems canon vs →
    (dumps g (n + 1) v).length + (dumpItems g n vs).length < fuel →
    readItems canon fuel (dumps g (n + 1) v ++ (dumpItems g n vs ++ (g.stop n ++ ']' :: rest))) =
      some (v :: vs, rest)
  | [], v, n, fuel, rest, hv, _, hfuel => by
    obtain ⟨m, rfl, hm⟩ := succ_of_le hfuel
    rw [readItems, dumpItems, List.nil_append, readValue_dumps hg v hv (by omega)
      (stops_blank (hg.stop n) (stops_cons rfl)), Option.bind_some,
      skipWs_bracket (hg.stop n) rfl]
    rfl
  | u :: us, v, n, fuel, rest, hv, hvs, hfuel => by
    obtain ⟨m, rfl, hm⟩ := succ_of_le hfuel
    simp only [dumpItems, List.length_append, List.length_cons] at hm
    have hcs : ',' :: g.item n ++ dumps g (n + 1) u ++ dumpItems g n us ++ (g.stop n ++ ']' :: rest) =
        ',' :: (g.item n ++
          (dumps g (n + 1) u ++ (dumpItems g n us ++ (g.stop n ++ ']' :: rest)))) := by simp
    rw [readItems, dumpItems, hcs, readValue_dumps hg v hv (by omega) (stops_cons rfl),
      Option.bind_some, skipWs_cons rfl, List.head?_cons, if_pos rfl, List.tail_cons,
      skipWs_value (hg.item n) hvs.1, readItems_dumps hg us u hvs.1 hvs.2 (by omega)]
    rfl
termination_by vs v => sizeOf vs + sizeOf v

theorem readFields_dumps (hg : g.Blank) : ∀ (fs : List (String × Json)) (k : String) (v : Json)
    {n fuel : Nat} {rest : List Char}, v.Plain canon → PlainFields canon fs →
    (writeString k).length + g.key.length + (dumps g (n + 1) v).length +
      (dumpFields g n fs).length < fuel →
    readFields canon fuel (writeString k ++ ':' :: (g.key ++
      (dumps g (n + 1) v ++ (dumpFields g n fs ++ (g.stop n ++ '}' :: rest))))) =
      some ((k, v) :: fs, rest)
  | [], k, v, n, fuel, rest, hv, _, hfuel => by
    obtain ⟨m, rfl, hm⟩ := succ_of_le hfuel
    have hlen := length_writeString k
    rw [writeString, List.cons_append, List.cons_append, List.append_assoc, readFields,
      if_neg (by simp), List.singleton_append, readString_write k.toList _ (by omega),
      Option.bind_some, skipWs_cons rfl, if_neg (by simp), List.tail_cons, skipWs_value hg.key hv,
      dumpFields, List.nil_append, readValue_dumps hg v hv (by omega)
        (stops_blank (hg.stop n) (stops_cons rfl)),
      Option.bind_some, skipWs_bracket (hg.stop n) rfl, if_neg (by simp), List.head?_cons,
      if_pos rfl, String.ofList_toList, List.tail_cons]
  | (j, u) :: us, k, v, n, fuel, rest, hv, hfs, hfuel => by
    obtain ⟨m, rfl, hm⟩ := succ_of_le hfuel
    have hlen := length_writeString k
    simp only [dumpFields, List.length_append, List.length_cons] at hm
    have hcs : ',' :: g.item n ++ writeString j ++ ':' :: g.key ++ dumps g (n + 1) u ++
        dumpFields g n us ++ (g.stop n ++ '}' :: rest) =
        ',' :: (g.item n ++ (writeString j ++ ':' :: (g.key ++
          (dumps g (n + 1) u ++ (dumpFields g n us ++ (g.stop n ++ '}' :: rest)))))) := by simp
    rw [writeString, List.cons_append, List.cons_append, List.append_assoc, readFields,
      if_neg (by simp), List.singleton_append, readString_write k.toList _ (by omega),
      Option.bind_some, skipWs_cons rfl, if_neg (by simp), List.tail_cons, dumpFields, hcs,
      skipWs_value hg.key hv, readValue_dumps hg v hv (by omega) (stops_cons rfl), Option.bind_some,
      skipWs_cons rfl, List.head?_cons, if_pos rfl, List.tail_cons, skipWs_string (hg.item n),
      readFields_dumps hg us j u hfs.1 hfs.2 (by omega), Option.map_some, String.ofList_toList]
termination_by fs _ v => sizeOf fs + sizeOf v
end

/-- What Python writes it reads back, with whitespace around it. -/
theorem loads_dumps (hg : g.Blank) {n : Nat} {v : Json} {before after : List Char}
    (h : v.Plain canon) (hbefore : ∀ c ∈ before, isWs c = true)
    (hafter : ∀ c ∈ after, isWs c = true) :
    loads canon (before ++ dumps g n v ++ after) = some v := by
  have hstop : Stops numberChar after := by
    have hblank := stops_blank hafter (@stops_nil numberChar)
    rwa [List.append_nil] at hblank
  rw [loads, List.append_assoc, skipWs_value hbefore h, readValue_dumps hg v h ?_ hstop,
    Option.bind_some, skipWs_all hafter, if_pos rfl]
  simp only [List.length_append]
  omega

end RoundTrip

/-! ## What is read can be written -/

section Soundness
variable {canon : String → String}

theorem plainItems_iff : ∀ {vs : List Json}, PlainItems canon vs ↔ ∀ v ∈ vs, v.Plain canon
  | [] => by simp [PlainItems]
  | v :: vs => by rw [PlainItems, plainItems_iff, List.forall_mem_cons]

theorem plainFields_iff : ∀ {fs : List (String × Json)},
    PlainFields canon fs ↔ ∀ f ∈ fs, f.2.Plain canon
  | [] => by simp [PlainFields]
  | f :: fs => by rw [PlainFields, plainFields_iff, List.forall_mem_cons]

theorem mem_setItem {κ ν : Type} [DecidableEq κ] {k : κ} {v : ν} {e : κ × ν} :
    ∀ {es : List (κ × ν)}, e ∈ setItem k v es → e = (k, v) ∨ e ∈ es
  | [], h => .inl (List.mem_singleton.mp h)
  | e' :: es, h => by
    rw [setItem] at h
    split at h
    · rcases List.mem_cons.mp h with rfl | h
      · exact .inl rfl
      · exact .inr (List.mem_cons_of_mem _ h)
    · rcases List.mem_cons.mp h with rfl | h
      · exact .inr List.mem_cons_self
      · exact (mem_setItem h).imp_right (List.mem_cons_of_mem _)

theorem keys_setItem {κ ν : Type} [DecidableEq κ] {k : κ} {v : ν} :
    ∀ {es : List (κ × ν)}, (es.map Prod.fst).Nodup → ((setItem k v es).map Prod.fst).Nodup
  | [], _ => List.nodup_singleton k
  | e :: es, h => by
    rw [List.map_cons, List.nodup_cons] at h
    rw [setItem]
    split
    · next hk => exact List.nodup_cons.mpr ⟨hk ▸ h.1, h.2⟩
    · next hk =>
      refine List.nodup_cons.mpr ⟨fun hmem => ?_, keys_setItem h.2⟩
      obtain ⟨e', he', heq⟩ := List.mem_map.mp hmem
      rcases mem_setItem he' with rfl | he'
      · exact hk heq.symm
      · exact h.1 (heq ▸ List.mem_map_of_mem he')

theorem dictOf_spec {κ ν : Type} [DecidableEq κ] (items : List (κ × ν)) :
    ((dictOf items).map Prod.fst).Nodup ∧ ∀ e ∈ dictOf items, e ∈ items := by
  have hfold : ∀ (items es : List (κ × ν)), (es.map Prod.fst).Nodup →
      ((items.foldl (fun entries e => setItem e.1 e.2 entries) es).map Prod.fst).Nodup ∧
      ∀ e ∈ items.foldl (fun entries e => setItem e.1 e.2 entries) es, e ∈ es ∨ e ∈ items := by
    intro items
    induction items with
    | nil => exact fun es h => ⟨h, fun e he => .inl he⟩
    | cons item items ih =>
      intro es h
      obtain ⟨hkeys, hmem⟩ := ih _ (keys_setItem (k := item.1) (v := item.2) h)
      refine ⟨hkeys, fun e he => ?_⟩
      rcases hmem e he with he | he
      · refine (mem_setItem he).symm.imp_right fun heq => ?_
        rw [heq]
        exact List.mem_cons_self
      · exact .inr (List.mem_cons_of_mem _ he)
  obtain ⟨hkeys, hmem⟩ := hfold items [] List.nodup_nil
  exact ⟨hkeys, fun e he => (hmem e he).resolve_left List.not_mem_nil⟩

theorem plain_of_readScalar (hcanon : Canonical canon) {cs r : List Char} {v : Json}
    (h : readScalar canon cs = some (v, r)) : v.Plain canon := by
  have hword : ∀ {word : String} {w : Json}, readWord word w cs = some (v, r) →
      w.Plain canon → v.Plain canon := by
    intro word w hread hw
    rw [readWord] at hread
    split at hread
    · obtain ⟨rfl, -⟩ := Prod.mk.inj (Option.some.inj hread)
      exact hw
    · cases hread
  simp only [readScalar, Option.or_eq_some_iff] at h
  rcases h with h | ⟨-, h | ⟨-, h | ⟨-, h | ⟨-, h | ⟨-, h | ⟨-, h⟩⟩⟩⟩⟩⟩
  · exact hword h trivial
  · exact hword h trivial
  · exact hword h trivial
  · exact hword h (.inl rfl)
  · exact hword h (.inr (.inl rfl))
  · exact hword h (.inr (.inr (.inl rfl)))
  · obtain ⟨p, hp, heq⟩ := Option.map_eq_some_iff.mp h
    obtain ⟨rfl, -⟩ := Prod.mk.inj heq
    refine hcanon _ ?_
    have hagain := readNumber_again (t := p.1) (r := p.2) hp stops_nil
    rw [List.append_nil] at hagain
    rw [IsToken, String.toList_ofList, hagain]

/-- What was read has number texts that Python writes and no key twice. -/
theorem plain_of_read (hcanon : Canonical canon) : ∀ fuel : Nat,
    (∀ cs v r, readValue canon fuel cs = some (v, r) → v.Plain canon) ∧
    (∀ cs vs r, readItems canon fuel cs = some (vs, r) → PlainItems canon vs) ∧
    ∀ cs fs r, readFields canon fuel cs = some (fs, r) → PlainFields canon fs
  | 0 => by
    refine ⟨fun _ _ _ h => ?_, fun _ _ _ h => ?_, fun _ _ _ h => ?_⟩
    · cases h
    · cases h
    · cases h
  | fuel + 1 => by
    obtain ⟨hvalue, hitems, hfields⟩ := plain_of_read hcanon fuel
    refine ⟨fun cs v r h => ?_, fun cs vs r h => ?_, fun cs fs r h => ?_⟩
    · cases cs with
      | nil => cases h
      | cons c cs =>
        rw [readValue] at h
        split at h
        · obtain ⟨p, -, heq⟩ := Option.map_eq_some_iff.mp h
          obtain ⟨rfl, -⟩ := Prod.mk.inj heq
          trivial
        split at h
        · split at h
          · obtain ⟨rfl, -⟩ := Prod.mk.inj (Option.some.inj h)
            trivial
          · obtain ⟨p, hp, heq⟩ := Option.map_eq_some_iff.mp h
            obtain ⟨rfl, -⟩ := Prod.mk.inj heq
            exact hitems _ p.1 p.2 hp
        split at h
        · split at h
          · obtain ⟨rfl, -⟩ := Prod.mk.inj (Option.some.inj h)
            exact ⟨List.nodup_nil, trivial⟩
          · obtain ⟨p, hp, heq⟩ := Option.map_eq_some_iff.mp h
            obtain ⟨rfl, -⟩ := Prod.mk.inj heq
            have hplain := plainFields_iff.mp (hfields _ p.1 p.2 hp)
            obtain ⟨hkeys, hmem⟩ := dictOf_spec p.1
            exact ⟨hkeys, plainFields_iff.mpr fun f hf => hplain f (hmem f hf)⟩
        · exact plain_of_readScalar hcanon h
    · rw [readItems] at h
      obtain ⟨p, hp, h⟩ := Option.bind_eq_some_iff.mp h
      have hv := hvalue _ p.1 p.2 hp
      split at h
      · obtain ⟨q, hq, heq⟩ := Option.map_eq_some_iff.mp h
        obtain ⟨rfl, -⟩ := Prod.mk.inj heq
        exact ⟨hv, hitems _ q.1 q.2 hq⟩
      · split at h
        · obtain ⟨rfl, -⟩ := Prod.mk.inj (Option.some.inj h)
          exact ⟨hv, trivial⟩
        · cases h
    · cases cs with
      | nil => cases h
      | cons c cs =>
        rw [readFields] at h
        split at h
        · cases h
        obtain ⟨k, -, h⟩ := Option.bind_eq_some_iff.mp h
        split at h
        · cases h
        obtain ⟨p, hp, h⟩ := Option.bind_eq_some_iff.mp h
        have hv := hvalue _ p.1 p.2 hp
        split at h
        · obtain ⟨q, hq, heq⟩ := Option.map_eq_some_iff.mp h
          obtain ⟨rfl, -⟩ := Prod.mk.inj heq
          exact ⟨hv, hfields _ q.1 q.2 hq⟩
        · split at h
          · obtain ⟨rfl, -⟩ := Prod.mk.inj (Option.some.inj h)
            exact ⟨hv, trivial⟩
          · cases h

theorem plain_of_loads (hcanon : Canonical canon) {cs : List Char} {v : Json}
    (h : loads canon cs = some v) : v.Plain canon := by
  obtain ⟨p, hp, h⟩ := Option.bind_eq_some_iff.mp h
  split at h
  · obtain rfl := Option.some.inj h
    exact (plain_of_read hcanon _).1 _ p.1 p.2 hp
  · cases h

end Soundness

end Nightfall.Core
