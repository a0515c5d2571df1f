import Nightfall.Core.JsonText
import Nightfall.Core.Table
import Nightfall.L1Storage.Names
import Nightfall.L8Web.AuditService

/-!
# The framing of the MCP server (`mcp_server.py`)

A message on stdin or stdout is a block of header lines, a blank line and a body of
`Content-Length` bytes. `_read` skips frames whose length is no number or not positive and
bodies that are no JSON object.

The numbers as Python writes them, the texts on which `json.loads` ends with another
exception, and the memory are parameters (`Interp`); so is whether reading ends with an
`OSError`. Some texts that Python reads have no meaning here: one with the escape of a lone
surrogate, whose value is no text, and one that nests so deeply that the log or `json.dumps`
gives up on what was read. The model ends where one of them is the body of a frame.

* `read_frame`: a frame that is as long as it says is read or skipped, and nothing else.
* `messages_frames`: of any frames on end the objects are read, in order.
* `read_written`: what `_write` wrote is read back.
* `frames_of_read`: what is read stands in a frame.
* `messages_only`: whatever stands on stdin, what is read are the objects of its frames.
-/
namespace Nightfall.Mcp
open Nightfall.Core Storage

/-! ## Bytes and lines -/

abbrev Bytes := List UInt8

/-- `sys.int_info.default_max_str_digits` -/
def maxDigits : Nat := 4300

/-- What the program leaves to Python and to the machine. -/
structure Interp where
  /-- how a number that was read is written -/
  canon : String → String
  canonical : Canonical canon
  canon_int : ∀ n : Int, canon (toString n) = toString n
  /-- too many brackets, a whole number that is too long: no `JSONDecodeError` -/
  givesUp : List Char → Bool
  /-- what `json.loads` takes and the model does not -/
  beyond : List Char → Bool
  /-- the longest body that `read` finds room for -/
  room : Nat
  room_lt : room < 2 ^ 63
  /-- `repr` -/
  repr : Json → String
  /-- `str` of what is no text -/
  str : Json → String

/-- `encode("utf-8")` -/
def encodeUtf8 (cs : List Char) : Bytes := cs.flatMap String.utf8EncodeChar

/-- `decode("utf-8")`, `none` for `UnicodeDecodeError`. -/
def decodeUtf8 (bs : Bytes) : Option (List Char) :=
  (ByteArray.utf8Decode? ⟨bs.toArray⟩).map Array.toList

/-- `decode("ascii", errors="replace")` -/
def decodeAscii (bs : Bytes) : List Char :=
  bs.map fun b => if b.toNat < 128 then Char.ofNat b.toNat else '\ufffd'

/-- `readline()`, and what is left. -/
def readline (bs : Bytes) : Bytes × Bytes :=
  (bs.takeWhile (· ≠ 10) ++ (bs.dropWhile (· ≠ 10)).take 1, (bs.dropWhile (· ≠ 10)).drop 1)

/-- `not line.rstrip(b"\r\n")` -/
def isBlankLine (line : Bytes) : Bool := line.all fun b => b = 13 || b = 10

/-- `partition(":")`, without the colon. -/
def partitionColon (cs : List Char) : List Char × List Char :=
  (cs.takeWhile (· ≠ ':'), (cs.dropWhile (· ≠ ':')).drop 1)

/-- `headers[k.strip().lower()] = v.strip()` -/
def putHeader (headers : Table String String) (line : Bytes) : Table String String :=
  let kv := partitionColon (decodeAscii line)
  headers.put (String.ofList ((stripBy isPySpace kv.1).map Char.toLower))
    (String.ofList (stripBy isPySpace kv.2))

/-- Digits with single underscores between them; `after` is whether a digit came last. -/
def underscored (after : Bool) : List Char → Bool
  | [] => after
  | c :: cs => if c.isDigit then underscored true cs else c == '_' && after && underscored false cs

def digitsNumber (cs : List Char) : Option Nat :=
  let ds := cs.filter Char.isDigit
  if underscored false cs ∧ ds.length ≤ maxDigits then some (Nat.ofDigitChars 10 ds 0) else none

/-- `int(text)` for a header, `none` for `ValueError`. -/
def headerInt (text : String) : Option Int :=
  match stripBy isPySpace text.toList with
  | '-' :: ds => (digitsNumber ds).map fun n => -(n : Int)
  | '+' :: ds => (digitsNumber ds).map fun n => (n : Int)
  | ds => (digitsNumber ds).map fun n => (n : Int)

/-- `int(headers.get("content-length", "0") or "0")` -/
def contentLength (headers : Table String String) : Option Int :=
  let text := (headers.get "content-length").getD "0"
  headerInt (if text = "" then "0" else text)

/-! ## `_read` and `_write` -/

/-- The header lines up to a blank one; `none` where `_read` returns `None`. -/
def readHeaders (broken : Bool) : Nat → Table String String → Bytes →
    Option (Table String String × Bytes)
  | 0, _, _ => none
  | fuel + 1, headers, bs =>
    let line := (readline bs).1
    if line = [] ∨ broken = true ∧ 10 ∉ line then none
    else if isBlankLine line = true then some (headers, (readline bs).2)
    else readHeaders broken fuel (putHeader headers line) (readline bs).2

inductive Parsed where
  | message (obj : Payload)
  | skipped
  | raised
  /-- a body that is not modelled -/
  | beyond

/-- mirrors mcp_server.py:98-108 -/
def parseBody (py : Interp) (body : Bytes) : Parsed :=
  match decodeUtf8 body with
  | none => .skipped
  | some text =>
    if py.givesUp text = true then .raised
    else if py.beyond text = true then .beyond
    else match loads py.canon text with
      | some (.obj fields) => .message fields
      | _ => .skipped

inductive ReadResult where
  | message (obj : Payload) (rest : Bytes)
  /-- `None` -/
  | ended
  /-- an exception that `_read` does not catch -/
  | raised
  | beyond

/-- How a pass of the loop ends that has found a body, with `rest` behind it. -/
def Parsed.pass (rest : Bytes) : Parsed → ReadResult ⊕ Bytes
  | .message obj => .inl (.message obj rest)
  | .skipped => .inr rest
  | .raised => .inl .raised
  | .beyond => .inl .beyond

/-- One pass of the loop; on the right what it goes on with.
mirrors mcp_server.py:59-108 -/
def readFrame (py : Interp) (broken : Bool) (bs : Bytes) : ReadResult ⊕ Bytes :=
  match readHeaders broken bs.length ∅ bs with
  | none => .inl .ended
  | some (headers, rest) =>
    match contentLength headers with
    | none => .inr rest
    | some n =>
      if n ≤ 0 then .inr rest
      else if py.room < n.toNat then .inl .raised
      else
        let body := rest.take n.toNat
        if body = [] ∨ broken = true ∧ body.length < n.toNat then .inl .ended
        else (parseBody py body).pass (rest.drop n.toNat)

def readLoop (py : Interp) (broken : Bool) : Nat → Bytes → ReadResult
  | 0, _ => .ended
  | fuel + 1, bs =>
    match readFrame py broken bs with
    | .inl result => result
    | .inr rest => readLoop py broken fuel rest

/-- mirrors mcp_server.py:53-108 -/
def read (py : Interp) (broken : Bool) (bs : Bytes) : ReadResult := readLoop py broken bs.length bs

/-- `f"Content-Length: {n}\r\n\r\n"` -/
def lengthHeader (n : Nat) : List Char :=
  "Content-Length: ".toList ++ Nat.toDigits 10 n ++ ['\r', '\n', '\r', '\n']

/-- mirrors mcp_server.py:45-50 -/
def write (payload : Json) : Bytes :=
  let body := encodeUtf8 (Core.dumps oneLine 0 payload)
  encodeUtf8 (lengthHeader body.length) ++ body

/-- Every message that is read before the end. -/
def readMany (py : Interp) (broken : Bool) : Nat → Bytes → List Payload
  | 0, _ => []
  | fuel + 1, bs =>
    match read py broken bs with
    | .message obj rest => obj :: readMany py broken fuel rest
    | _ => []

def messages (py : Interp) (broken : Bool) (bs : Bytes) : List Payload :=
  readMany py broken bs.length bs

/-! ## Frames -/

structure Frame where
  /-- without their newlines -/
  lines : List Bytes
  /-- what the blank line holds before its newline -/
  blank : Bytes
  body : Bytes

namespace Frame

def bytes (f : Frame) : Bytes := f.lines.flatMap (· ++ [10]) ++ (f.blank ++ 10 :: f.body)

def headers (f : Frame) : Table String String :=
  f.lines.foldl (fun headers line => putHeader headers (line ++ [10])) ∅

/-- How long the body is said to be. -/
def declared (f : Frame) : Nat := ((contentLength f.headers).getD 0).toNat

/-- The lines are lines and the blank line is one. -/
structure Headed (f : Frame) : Prop where
  lines : ∀ line ∈ f.lines, 10 ∉ line ∧ ∃ b ∈ line, b ≠ 13
  blank : ∀ b ∈ f.blank, b = 13

/-- The body is as long as the headers say, and Python and the model can take it. -/
structure Delimited (py : Interp) (f : Frame) : Prop extends f.Headed where
  body : f.body.length = f.declared
  room : f.declared ≤ py.room
  parses : f.body ≠ [] → parseBody py f.body ≠ .raised ∧ parseBody py f.body ≠ .beyond

/-- The object in the body. -/
def message (py : Interp) (f : Frame) : Option Payload :=
  if f.body = [] then none
  else match parseBody py f.body with
    | .message obj => some obj
    | _ => none

end Frame

/-! ## Reading goes on -/

section Lines
variable {line rest bs : Bytes}

theorem readline_append (bs : Bytes) : (readline bs).1 ++ (readline bs).2 = bs := by
  rw [readline, List.append_assoc, List.take_append_drop, List.takeWhile_append_dropWhile]

theorem readline_line (h : 10 ∉ line) : readline (line ++ 10 :: rest) = (line ++ [10], rest) := by
  have hline : ∀ b ∈ line, decide (b ≠ 10) = true := fun b hb => by
    have hne : b ≠ 10 := fun heq => h (heq ▸ hb)
    simpa using hne
  rw [readline, List.takeWhile_append_of_pos hline, List.dropWhile_append_of_pos hline]
  simp

theorem length_readline (h : (readline bs).1 ≠ []) : (readline bs).2.length < bs.length := by
  have hlen := congrArg List.length (readline_append bs)
  have hpos := List.length_pos_iff.mpr h
  rw [List.length_append] at hlen
  omega

theorem isBlankLine_newline (h : ∀ b ∈ line, b = 13) : isBlankLine (line ++ [10]) = true := by
  refine List.all_eq_true.mpr fun b hb => ?_
  rcases List.mem_append.mp hb with hb | hb
  · rw [h b hb]
    rfl
  · obtain rfl := List.mem_singleton.mp hb
    rfl

theorem not_isBlankLine (h : 10 ∉ line) (hb : ∃ b ∈ line, b ≠ 13) :
    isBlankLine (line ++ [10]) = false := by
  obtain ⟨b, hb, hne⟩ := hb
  refine List.all_eq_false.mpr ⟨b, List.mem_append_left _ hb, ?_⟩
  have hten : b ≠ 10 := fun heq => h (heq ▸ hb)
  simp [hne, hten]

theorem length_readHeaders {broken : Bool} : ∀ {fuel : Nat} {headers headers' : Table String String}
    {bs rest : Bytes}, readHeaders broken fuel headers bs = some (headers', rest) →
    rest.length < bs.length
  | 0, _, _, _, _, h => by cases h
  | fuel + 1, headers, headers', bs, rest, h => by
    rw [readHeaders] at h
    split at h
    · cases h
    · next hline =>
      have hlt := length_readline fun hnil => hline (.inl hnil)
      split at h
      · obtain ⟨-, rfl⟩ := Prod.mk.inj (Option.some.inj h)
        exact hlt
      · exact (length_readHeaders h).trans hlt

/-- The header lines of a frame. -/
theorem readHeaders_lines {broken : Bool} {blank : Bytes} (hblank : ∀ b ∈ blank, b = 13) :
    ∀ {lines : List Bytes} {fuel : Nat} {headers : Table String String},
    (∀ line ∈ lines, 10 ∉ line ∧ ∃ b ∈ line, b ≠ 13) → lines.length < fuel →
    readHeaders broken fuel headers (lines.flatMap (· ++ [10]) ++ (blank ++ 10 :: rest)) =
      some (lines.foldl (fun headers line => putHeader headers (line ++ [10])) headers, rest)
  | [], fuel, headers, _, hfuel => by
    obtain ⟨n, rfl⟩ := Nat.exists_eq_add_one_of_ne_zero (Nat.ne_of_gt hfuel)
    have hten : 10 ∉ blank := fun h => absurd (hblank 10 h) (by decide)
    rw [List.flatMap_nil, List.nil_append, readHeaders, readline_line hten,
      if_neg (by simp), if_pos (isBlankLine_newline hblank)]
    rfl
  | line :: lines, fuel, headers, hlines, hfuel => by
    rw [List.length_cons] at hfuel
    obtain ⟨n, rfl⟩ := Nat.exists_eq_add_one_of_ne_zero (Nat.ne_of_gt (Nat.zero_lt_of_lt hfuel))
    obtain ⟨hten, hb⟩ := hlines line List.mem_cons_self
    have hcs : (line :: lines).flatMap (· ++ [10]) ++ (blank ++ 10 :: rest) =
        line ++ 10 :: (lines.flatMap (· ++ [10]) ++ (blank ++ 10 :: rest)) := by simp
    rw [hcs, readHeaders, readline_line hten, if_neg (by simp),
      if_neg (by simp [not_isBlankLine hten hb]),
      readHeaders_lines hblank (fun l hl => hlines l (List.mem_cons_of_mem _ hl)) (by omega)]
    rfl

end Lines

section Fuel
variable {py : Interp} {broken : Bool}

theorem length_readFrame {bs rest : Bytes} (h : readFrame py broken bs = .inr rest) :
    rest.length < bs.length := by
  unfold readFrame at h
  cases hhead : readHeaders broken bs.length ∅ bs with
  | none =>
    rw [hhead] at h
    cases h
  | some p =>
    obtain ⟨headers, tail⟩ := p
    have hlt := length_readHeaders hhead
    have hdrop : ∀ n, (tail.drop n).length ≤ tail.length := fun n => by simp
    simp only [hhead] at h
    split at h
    · cases h
      exact hlt
    split at h
    · cases h
      exact hlt
    split at h
    · cases h
    split at h
    · cases h
    · cases hparse : parseBody py (tail.take _) with
      | message obj =>
        rw [hparse] at h
        cases h
      | skipped =>
        rw [hparse] at h
        cases h
        exact (hdrop _).trans_lt hlt
      | raised | beyond =>
        rw [hparse] at h
        cases h

/-- The loop ends before the bytes do. -/
theorem readLoop_fuel : ∀ {m n : Nat} {bs : Bytes}, bs.length ≤ m → bs.length ≤ n →
    readLoop py broken m bs = readLoop py broken n bs
  | 0, n, bs, hm, _ => by
    obtain rfl := List.length_eq_zero_iff.mp (Nat.le_zero.mp hm)
    cases n <;> rfl
  | m + 1, 0, bs, _, hn => by
    obtain rfl := List.length_eq_zero_iff.mp (Nat.le_zero.mp hn)
    rfl
  | m + 1, n + 1, bs, hm, hn => by
    rw [readLoop, readLoop]
    cases hframe : readFrame py broken bs with
    | inl result => rfl
    | inr rest =>
      have hlt := length_readFrame hframe
      exact readLoop_fuel (by omega) (by omega)

theorem read_eq (py : Interp) (broken : Bool) (bs : Bytes) :
    read py broken bs = Sum.elim id (read py broken) (readFrame py broken bs) := by
  cases bs with
  | nil => rfl
  | cons b bs =>
    cases hframe : readFrame py broken (b :: bs) with
    | inl result =>
      rw [read, List.length_cons, readLoop, hframe]
      rfl
    | inr rest =>
      have hlt := length_readFrame hframe
      rw [List.length_cons] at hlt
      rw [read, List.length_cons, readLoop, hframe]
      exact readLoop_fuel (by omega) (Nat.le_refl _)

end Fuel

/-! ## Frames are read -/

section Frames
variable {py : Interp} {broken : Bool} {f : Frame} {rest : Bytes}

theorem length_lines : ∀ {lines : List Bytes}, lines.length ≤ (lines.flatMap (· ++ [10])).length
  | [] => Nat.le_refl _
  | line :: lines => by
    have := @length_lines lines
    simp only [List.length_cons, List.flatMap_cons, List.length_append, List.length_nil]
    omega

theorem readHeaders_bytes (h : f.Headed) :
    readHeaders broken (f.bytes ++ rest).length ∅ (f.bytes ++ rest) =
      some (f.headers, f.body ++ rest) := by
  have hbytes : f.bytes ++ rest =
      f.lines.flatMap (· ++ [10]) ++ (f.blank ++ 10 :: (f.body ++ rest)) := by
    simp [Frame.bytes]
  have hlen := @length_lines f.lines
  rw [hbytes]
  refine readHeaders_lines h.blank h.lines ?_
  simp only [List.length_append, List.length_cons]
  omega

theorem Frame.message_of_nil (h : f.body = []) : f.message py = none := if_pos h

theorem Frame.message_eq_some {obj : Payload} :
    f.message py = some obj ↔ f.body ≠ [] ∧ parseBody py f.body = .message obj := by
  rw [Frame.message]
  split
  · next hnil => simp [hnil]
  · next hne => cases parseBody py f.body <;> simp [hne]

theorem parseBody_eq_message {body : Bytes} {obj : Payload}
    (h : parseBody py body = .message obj) :
    ∃ text, decodeUtf8 body = some text ∧ loads py.canon text = some (.obj obj) := by
  rw [parseBody] at h
  cases htext : decodeUtf8 body with
  | none =>
    rw [htext] at h
    cases h
  | some text =>
    rw [htext] at h
    dsimp only at h
    split at h
    · cases h
    split at h
    · cases h
    split at h
    · next hloads =>
      obtain rfl := Parsed.message.inj h
      exact ⟨text, rfl, hloads⟩
    · cases h

theorem readFrame_bytes (h : f.Delimited py) : readFrame py broken (f.bytes ++ rest) =
    (f.message py).elim (.inr rest) fun obj => .inl (.message obj rest) := by
  have hempty : f.declared = 0 → f.body = [] := fun hzero =>
    List.length_eq_zero_iff.mp (h.body.trans hzero)
  have hbody := h.body
  have hroom := h.room
  rw [readFrame, readHeaders_bytes h.toHeaded]
  dsimp only
  cases hlen : contentLength f.headers with
  | none =>
    have hnil := hempty (by rw [Frame.declared, hlen]; rfl)
    rw [Frame.message_of_nil hnil, hnil]
    rfl
  | some n =>
    have hdeclared : f.declared = n.toNat := by rw [Frame.declared, hlen]; rfl
    dsimp only
    by_cases hn : n ≤ 0
    · have hnil := hempty (by rw [hdeclared]; omega)
      rw [if_pos hn, Frame.message_of_nil hnil, hnil]
      rfl
    · have hne : f.body ≠ [] := fun hnil => by
        rw [hnil, List.length_nil] at hbody
        omega
      have htake : (f.body ++ rest).take n.toNat = f.body := by
        rw [← hdeclared, ← hbody, List.take_left]
      have hdrop : (f.body ++ rest).drop n.toNat = rest := by
        rw [← hdeclared, ← hbody, List.drop_left]
      rw [if_neg hn, if_neg (by omega), htake, hdrop, if_neg, Frame.message, if_neg hne]
      · cases hparse : parseBody py f.body with
        | message obj => rfl
        | skipped => rfl
        | raised => exact absurd hparse (h.parses hne).1
        | beyond => exact absurd hparse (h.parses hne).2
      · rintro (hnil | ⟨-, hlt⟩)
        · exact hne hnil
        · omega

/-- A frame that is as long as it says: its object is read, or it is skipped. -/
theorem read_frame (h : f.Delimited py) : read py broken (f.bytes ++ rest) =
    (f.message py).elim (read py broken rest) fun obj => .message obj rest := by
  rw [read_eq, readFrame_bytes h]
  cases f.message py <;> rfl

theorem readline_cases (bs : Bytes) : (∃ line rest, 10 ∉ line ∧ bs = line ++ 10 :: rest ∧
    readline bs = (line ++ [10], rest)) ∨ (readline bs).2 = [] := by
  cases htail : bs.dropWhile (· ≠ 10) with
  | nil =>
    rw [readline, htail]
    exact .inr rfl
  | cons c cs =>
    have hc : c = 10 := by
      have hhead := List.head?_dropWhile_not (fun b : UInt8 => decide (b ≠ 10)) bs
      rw [htail] at hhead
      simpa using hhead
    subst hc
    have hten : 10 ∉ bs.takeWhile (· ≠ 10) := fun hmem => by
      have := List.mem_takeWhile_imp hmem
      simp at this
    have hbs : bs = bs.takeWhile (· ≠ 10) ++ 10 :: cs := by
      rw [← htail, List.takeWhile_append_dropWhile]
    refine .inl ⟨_, cs, hten, hbs, ?_⟩
    rw [readline, htail]
    rfl

theorem readHeaders_sound : ∀ {fuel : Nat} {headers headers' : Table String String}
    {bs rest : Bytes}, readHeaders broken fuel headers bs = some (headers', rest) →
    rest = [] ∨ ∃ (lines : List Bytes) (blank : Bytes),
      (∀ line ∈ lines, 10 ∉ line ∧ ∃ b ∈ line, b ≠ 13) ∧ (∀ b ∈ blank, b = 13) ∧
      bs = lines.flatMap (· ++ [10]) ++ (blank ++ 10 :: rest) ∧
      headers' = lines.foldl (fun headers line => putHeader headers (line ++ [10])) headers
  | 0, _, _, _, _, h => by cases h
  | fuel + 1, headers, headers', bs, rest, h => by
    rw [readHeaders] at h
    split at h
    · cases h
    rcases readline_cases bs with ⟨line, tail, hten, rfl, hline⟩ | hnil
    · rw [hline] at h
      split at h
      · next hblank =>
        obtain ⟨rfl, rfl⟩ := Prod.mk.inj (Option.some.inj h)
        refine .inr ⟨[], line, by simp, fun b hb => ?_, rfl, rfl⟩
        have hall := List.all_eq_true.mp hblank b (List.mem_append_left _ hb)
        have hne : b ≠ 10 := fun heq => hten (heq ▸ hb)
        simpa [hne] using hall
      · next hblank =>
        refine (readHeaders_sound h).imp_right ?_
        rintro ⟨lines, blank, hlines, hblanks, rfl, rfl⟩
        refine ⟨line :: lines, blank, ?_, hblanks, by simp, rfl⟩
        refine List.forall_mem_cons.mpr ⟨⟨hten, ?_⟩, hlines⟩
        by_contra hall
        refine hblank (isBlankLine_newline fun b hb => ?_)
        by_contra hne
        exact hall ⟨b, hb, hne⟩
    · rw [hnil] at h
      split at h
      · obtain ⟨-, rfl⟩ := Prod.mk.inj (Option.some.inj h)
        exact .inl rfl
      · have hlt := length_readHeaders h
        cases hlt

/-- The input ends in the body, and what there is of it is an object. -/
structure Frame.CutShort (py : Interp) (f : Frame) (obj : Payload) : Prop extends f.Headed where
  short : f.body.length < f.declared
  room : f.declared ≤ py.room
  object : f.message py = some obj

/-- What one pass can find. -/
inductive Finds (py : Interp) (broken : Bool) (bs : Bytes) : ReadResult ⊕ Bytes → Prop where
  | ended : Finds py broken bs (.inl .ended)
  | raised : Finds py broken bs (.inl .raised)
  | beyond : Finds py broken bs (.inl .beyond)
  /-- the bytes end in the headers or in the body -/
  | cut : Finds py broken bs (.inr [])
  | skipped (f : Frame) (rest : Bytes) : bs = f.bytes ++ rest → f.Delimited py →
      f.message py = none → Finds py broken bs (.inr rest)
  | message (f : Frame) (rest : Bytes) (obj : Payload) : bs = f.bytes ++ rest →
      f.Delimited py → f.message py = some obj → Finds py broken bs (.inl (.message obj rest))
  | cutShort (f : Frame) (obj : Payload) : bs = f.bytes → broken = false → f.CutShort py obj →
      Finds py broken bs (.inl (.message obj []))

theorem finds_empty {f : Frame} {rest : Bytes} (h : f.Headed) (hbody : f.body = [])
    (hzero : f.declared = 0) : Finds py broken (f.bytes ++ rest) (.inr rest) := by
  refine .skipped f rest rfl ⟨h, ?_, ?_, fun hne => absurd hbody hne⟩ ?_
  · rw [hbody, hzero]
    rfl
  · rw [hzero]
    exact Nat.zero_le _
  · exact Frame.message_of_nil hbody

theorem finds_body {f : Frame} {rest : Bytes} (h : f.Headed) (hne : f.body ≠ [])
    (hroom : f.declared ≤ py.room) (hlen : f.body.length = f.declared ∨
      rest = [] ∧ broken = false ∧ f.body.length < f.declared) :
    Finds py broken (f.bytes ++ rest) ((parseBody py f.body).pass rest) := by
  cases hparse : parseBody py f.body with
  | message obj =>
    have hobj : f.message py = some obj := Frame.message_eq_some.mpr ⟨hne, hparse⟩
    rcases hlen with heq | ⟨rfl, hbroken, hshort⟩
    · refine .message f rest obj rfl ⟨h, heq, hroom, fun _ => ?_⟩ hobj
      rw [hparse]
      exact ⟨Parsed.noConfusion, Parsed.noConfusion⟩
    · exact .cutShort f obj (List.append_nil _) hbroken ⟨h, hshort, hroom, hobj⟩
  | skipped =>
    rcases hlen with heq | ⟨rfl, -⟩
    · refine .skipped f rest rfl ⟨h, heq, hroom, fun _ => ?_⟩ ?_
      · rw [hparse]
        exact ⟨Parsed.noConfusion, Parsed.noConfusion⟩
      · rw [Frame.message, if_neg hne, hparse]
    · exact .cut
  | raised => exact .raised
  | beyond => exact .beyond

theorem readFrame_finds (bs : Bytes) : Finds py broken bs (readFrame py broken bs) := by
  rw [readFrame]
  cases hhead : readHeaders broken bs.length ∅ bs with
  | none => exact .ended
  | some p =>
    obtain ⟨headers, tail⟩ := p
    have hframe : ∀ body rest, tail = body ++ rest → tail = [] ∨ ∃ f : Frame,
        bs = f.bytes ++ rest ∧ f.Headed ∧ f.headers = headers ∧ f.body = body := by
      rintro body rest rfl
      refine (readHeaders_sound hhead).imp_right ?_
      rintro ⟨lines, blank, hlines, hblank, rfl, rfl⟩
      exact ⟨⟨lines, blank, body⟩, by simp [Frame.bytes], ⟨hlines, hblank⟩, rfl, rfl⟩
    have hempty : ((contentLength headers).getD 0).toNat = 0 → Finds py broken bs (.inr tail) := by
      intro hzero
      rcases hframe [] tail rfl with rfl | ⟨f, rfl, hheaded, rfl, hbody⟩
      · exact .cut
      · exact finds_empty hheaded hbody hzero
    dsimp only
    cases hlen : contentLength headers with
    | none => exact hempty (by rw [hlen]; rfl)
    | some n =>
      dsimp only
      split
      · next hn => exact hempty (by rw [hlen]; exact Int.toNat_of_nonpos hn)
      split
      · exact .raised
      split
      · exact .ended
      · next hn hroom hcut =>
        have htake : tail.take n.toNat ≠ [] := fun hnil => hcut (.inl hnil)
        rcases hframe _ _ (List.take_append_drop n.toNat tail).symm with
          rfl | ⟨f, rfl, hheaded, rfl, hbody⟩
        · exact absurd List.take_nil htake
        · have hdeclared : f.declared = n.toNat := by rw [Frame.declared, hlen]; rfl
          rw [← hbody]
          refine finds_body hheaded (hbody ▸ htake) (by omega) ?_
          rw [hbody, hdeclared, List.length_take, List.drop_eq_nil_iff]
          by_cases hlt : tail.length < n.toNat
          · have hbroken : broken = false := by
              rw [Bool.eq_false_iff]
              exact fun hb => hcut (.inr ⟨hb, by rw [List.length_take]; omega⟩)
            exact .inr ⟨by omega, hbroken, by omega⟩
          · exact .inl (by omega)

/-- Where the input ends in a body, what there is of it is read. -/
theorem readFrame_cutShort {obj : Payload} (h : f.CutShort py obj) :
    readFrame py false f.bytes = .inl (.message obj []) := by
  have hheaders := @readHeaders_bytes false f [] h.toHeaded
  rw [List.append_nil, List.append_nil] at hheaders
  obtain ⟨hne, hparse⟩ := Frame.message_eq_some.mp h.object
  have hshort := h.short
  rw [readFrame, hheaders]
  dsimp only
  cases hlen : contentLength f.headers with
  | none =>
    have hzero : f.declared = 0 := by rw [Frame.declared, hlen]; rfl
    omega
  | some n =>
    have hdeclared : f.declared = n.toNat := by rw [Frame.declared, hlen]; rfl
    have hroom := h.room
    have htake : f.body.take n.toNat = f.body := List.take_of_length_le (by omega)
    have hdrop : f.body.drop n.toNat = [] := List.drop_eq_nil_iff.mpr (by omega)
    dsimp only
    rw [if_neg (by omega), if_neg (by omega), htake, hdrop, if_neg (by simp [hne]), hparse]
    rfl

/-- What is read stands in a frame, behind other frames. -/
theorem frames_of_read {bs : Bytes} {obj : Payload} {rest : Bytes}
    (h : read py broken bs = .message obj rest) : ∃ (fs : List Frame) (f : Frame),
    bs = fs.flatMap Frame.bytes ++ (f.bytes ++ rest) ∧ f.message py = some obj := by
  induction hn : bs.length using Nat.strong_induction_on generalizing bs with
  | _ n ih =>
    rw [read_eq] at h
    have hfinds := @readFrame_finds py broken bs
    generalize hframe : readFrame py broken bs = found at h hfinds
    cases hfinds with
    | ended => cases h
    | raised => cases h
    | beyond => cases h
    | cut => cases h
    | skipped f tail hbs hf hmsg =>
      have hlt := length_readFrame hframe
      obtain ⟨fs, g, htail, hg⟩ := ih tail.length (hn ▸ hlt) h rfl
      refine ⟨f :: fs, g, ?_, hg⟩
      rw [hbs, htail, List.flatMap_cons, List.append_assoc]
    | message f tail obj' hbs hf hmsg =>
      obtain ⟨rfl, rfl⟩ := ReadResult.message.inj h
      exact ⟨[], f, hbs, hmsg⟩
    | cutShort f obj' hbs hbroken hf =>
      obtain ⟨rfl, rfl⟩ := ReadResult.message.inj h
      exact ⟨[], f, by rw [hbs, List.append_nil]; rfl, hf.object⟩

end Frames

section Messages
variable {py : Interp} {broken : Bool}

theorem length_read {bs rest : Bytes} {obj : Payload} (h : read py broken bs = .message obj rest) :
    rest.length < bs.length := by
  obtain ⟨fs, f, rfl, -⟩ := frames_of_read h
  simp only [Frame.bytes, List.length_append, List.length_cons]
  omega

theorem readMany_fuel : ∀ {m n : Nat} {bs : Bytes}, bs.length ≤ m → bs.length ≤ n →
    readMany py broken m bs = readMany py broken n bs
  | 0, n, bs, hm, _ => by
    obtain rfl := List.length_eq_zero_iff.mp (Nat.le_zero.mp hm)
    cases n <;> rfl
  | m + 1, 0, bs, _, hn => by
    obtain rfl := List.length_eq_zero_iff.mp (Nat.le_zero.mp hn)
    rfl
  | m + 1, n + 1, bs, hm, hn => by
    rw [readMany, readMany]
    cases hread : read py broken bs with
    | message obj rest =>
      have hlt := length_read hread
      dsimp only
      rw [readMany_fuel (m := m) (n := n) (by omega) (by omega)]
    | ended | raised | beyond => rfl

/-- What one call of `_read` tells about the messages. -/
def ReadResult.messages (py : Interp) (broken : Bool) : ReadResult → List Payload
  | .message obj rest => obj :: Mcp.messages py broken rest
  | _ => []

theorem messages_eq (bs : Bytes) :
    messages py broken bs = (read py broken bs).messages py broken := by
  cases bs with
  | nil => rfl
  | cons b bs =>
    rw [messages, List.length_cons, readMany]
    cases hread : read py broken (b :: bs) with
    | message obj rest =>
      have hlt := length_read hread
      rw [List.length_cons] at hlt
      dsimp only [ReadResult.messages]
      rw [messages, readMany_fuel (m := bs.length) (n := rest.length) (by omega) (by omega)]
    | ended | raised | beyond => rfl

end Messages

/-! ## What is written is read -/

theorem encodeUtf8_append (cs ds : List Char) :
    encodeUtf8 (cs ++ ds) = encodeUtf8 cs ++ encodeUtf8 ds := List.flatMap_append

theorem decodeUtf8_encode (cs : List Char) : decodeUtf8 (encodeUtf8 cs) = some cs := by
  have hbytes : (⟨(encodeUtf8 cs).toArray⟩ : ByteArray) = cs.utf8Encode := by
    rw [List.utf8Encode, ← List.data_toByteArray]
    rfl
  rw [decodeUtf8, hbytes, List.utf8Decode?_utf8Encode, Option.map_some, List.toList_toArray]

theorem encodeUtf8_ascii {cs : List Char} (h : ∀ c ∈ cs, c.toNat < 128) :
    encodeUtf8 cs = cs.map fun c => c.val.toUInt8 := by
  induction cs with
  | nil => rfl
  | cons c cs ih =>
    obtain ⟨hc, hcs⟩ := List.forall_mem_cons.mp h
    have hbyte : String.utf8EncodeChar c = [c.val.toUInt8] := by
      refine String.utf8EncodeChar_eq_singleton (Char.utf8Size_eq_one_iff.mpr ?_)
      rw [UInt32.le_iff_toNat_le]
      exact Nat.le_of_lt_succ hc
    have hrest := ih hcs
    rw [encodeUtf8] at hrest ⊢
    rw [List.flatMap_cons, hbyte, hrest]
    rfl

theorem toNat_byte {c : Char} (h : c.toNat < 128) : c.val.toUInt8.toNat = c.toNat := by
  have hval : c.val.toNat < 128 := h
  rw [UInt32.toNat_toUInt8, Nat.mod_eq_of_lt (by omega)]
  rfl

theorem decodeAscii_encode {cs : List Char} (h : ∀ c ∈ cs, c.toNat < 128) :
    decodeAscii (encodeUtf8 cs) = cs := by
  rw [encodeUtf8_ascii h, decodeAscii, List.map_map]
  refine (List.map_congr_left fun c hc => ?_).trans (List.map_id cs)
  have hnat := toNat_byte (h c hc)
  simp only [Function.comp_apply, hnat, if_pos (h c hc), Char.ofNat_toNat, id]

theorem stripBy_around {p : Char → Bool} {before cs after : List Char}
    (hbefore : ∀ c ∈ before, p c = true) (hafter : ∀ c ∈ after, p c = true)
    (h : ∀ c ∈ cs, p c = false) (hne : cs ≠ []) : stripBy p (before ++ cs ++ after) = cs := by
  have hdrop : ∀ {ws ds : List Char}, (∀ c ∈ ws, p c = true) →
      (∀ c, ds.head? = some c → p c = false) → (ws ++ ds).dropWhile p = ds := by
    intro ws ds hws hds
    rw [List.dropWhile_append_of_pos hws]
    cases ds with
    | nil => rfl
    | cons d ds => rw [List.dropWhile_cons_of_neg (by simp [hds d rfl])]
  have hhead : ∀ c, (cs ++ after).head? = some c → p c = false := by
    intro c hc
    rw [List.head?_append_of_ne_nil _ hne] at hc
    exact h c (List.mem_of_mem_head? hc)
  have hlast : ∀ c, cs.reverse.head? = some c → p c = false := by
    intro c hc
    rw [List.head?_reverse] at hc
    exact h c (List.mem_of_getLast? hc)
  have hafter' : ∀ c ∈ after.reverse, p c = true := fun c hc => hafter c (List.mem_reverse.mp hc)
  rw [stripBy, List.append_assoc, hdrop hbefore hhead, List.reverse_append, hdrop hafter' hlast,
    List.reverse_reverse]

theorem underscored_digits : ∀ {ds : List Char}, (∀ c ∈ ds, c.isDigit = true) → ds ≠ [] →
    ∀ after, underscored after ds = true
  | [], _, hne, _ => absurd rfl hne
  | [d], h, _, after => by
    rw [underscored, if_pos (h d List.mem_cons_self)]
    rfl
  | d :: e :: ds, h, _, after => by
    rw [underscored, if_pos (h d List.mem_cons_self)]
    exact underscored_digits (fun c hc => h c (List.mem_cons_of_mem _ hc)) (List.cons_ne_nil _ _) _

theorem headerInt_digits {n : Nat} (h : n < 2 ^ 63) :
    headerInt (String.ofList (Nat.toDigits 10 n)) = some (n : Int) := by
  have hdigits : ∀ c ∈ Nat.toDigits 10 n, c.isDigit = true := fun c hc =>
    Nat.isDigit_of_mem_toDigits (by decide) (by decide) hc
  have hlen : (Nat.toDigits 10 n).length ≤ maxDigits := by
    have hshort : (Nat.toDigits 10 n).length ≤ 19 :=
      (Nat.length_toDigits_le_iff (by decide) (by decide)).mpr (h.trans (by decide))
    exact hshort.trans (by decide)
  have hnumber : digitsNumber (Nat.toDigits 10 n) = some n := by
    rw [digitsNumber, List.filter_eq_self.mpr hdigits,
      if_pos ⟨underscored_digits hdigits Nat.toDigits_ne_nil false, hlen⟩,
      Nat.ofDigitChars_ten_toDigits]
  rw [headerInt, String.toList_ofList,
    stripBy_eq_self fun c hc => Web.not_isPySpace_of_isDigit (hdigits c hc)]
  split
  · next heq => exact absurd (hdigits '-' (by rw [heq]; exact List.mem_cons_self)) (by decide)
  · next heq => exact absurd (hdigits '+' (by rw [heq]; exact List.mem_cons_self)) (by decide)
  · rw [hnumber]
    rfl

/-- The header line of `_write`, without its newline. -/
def lengthLine (n : Nat) : List Char := "Content-Length: ".toList ++ Nat.toDigits 10 n ++ ['\r']

/-- What `_write` writes, as a frame. -/
def writtenFrame (payload : Json) : Frame where
  lines := [encodeUtf8 (lengthLine (encodeUtf8 (Core.dumps oneLine 0 payload)).length)]
  blank := [13]
  body := encodeUtf8 (Core.dumps oneLine 0 payload)

theorem lengthHeader_eq (n : Nat) :
    encodeUtf8 (lengthHeader n) = encodeUtf8 (lengthLine n) ++ [10, 13, 10] := by
  have hlist : lengthHeader n = lengthLine n ++ ['\n', '\r', '\n'] := by
    unfold lengthHeader lengthLine
    generalize "Content-Length: ".toList = key
    simp
  have hend : encodeUtf8 ['\n', '\r', '\n'] = [10, 13, 10] := by decide +kernel
  rw [hlist, encodeUtf8_append, hend]

theorem write_eq (payload : Json) : write payload = (writtenFrame payload).bytes := by
  simp only [write, lengthHeader_eq, writtenFrame, Frame.bytes]
  simp

theorem lengthLine_chars {n : Nat} : ∀ c ∈ lengthLine n, c.toNat < 128 ∧ c ≠ '\n' := by
  have hname : ∀ c ∈ "Content-Length: ".toList, c.toNat < 128 ∧ c ≠ '\n' := by
    have hall : "Content-Length: ".toList.all (fun c => c.toNat < 128 && c != '\n') = true := by
      decide
    intro c hc
    simpa using List.all_eq_true.mp hall c hc
  intro c hc
  rcases List.mem_append.mp hc with hc | hc
  · rcases List.mem_append.mp hc with hc | hc
    · exact hname c hc
    · have hd : c.isDigit = true := Nat.isDigit_of_mem_toDigits (by decide) (by decide) hc
      refine ⟨?_, (ne_of_isDigit hd rfl).symm⟩
      simp only [Char.isDigit, Bool.and_eq_true, decide_eq_true_eq] at hd
      have hle : c.toNat ≤ 57 := hd.2
      omega
  · obtain rfl := List.mem_singleton.mp hc
    decide

/-- The header says how long the body is. -/
theorem contentLength_line {n : Nat} (h : n < 2 ^ 63) :
    contentLength (putHeader ∅ (encodeUtf8 (lengthLine n) ++ [10])) = some (n : Int) := by
  let key := "Content-Length".toList
  let value := [' '] ++ Nat.toDigits 10 n ++ ['\r', '\n']
  have hdigits : ∀ c ∈ Nat.toDigits 10 n, c.isDigit = true := fun c hc =>
    Nat.isDigit_of_mem_toDigits (by decide) (by decide) hc
  have hname : "Content-Length: ".toList = key ++ [':', ' '] := by decide
  have hlist : lengthLine n ++ ['\n'] = key ++ ':' :: value := by
    unfold lengthLine
    rw [hname]
    generalize key = name
    simp [value]
  have hline : encodeUtf8 (lengthLine n) ++ [10] = encodeUtf8 (key ++ ':' :: value) := by
    have hend : encodeUtf8 ['\n'] = [10] := by decide +kernel
    rw [← hlist, encodeUtf8_append, hend]
  have hascii : ∀ c ∈ key ++ ':' :: value, c.toNat < 128 := by
    rw [← hlist]
    intro c hc
    rcases List.mem_append.mp hc with hc | hc
    · exact (lengthLine_chars c hc).1
    · obtain rfl := List.mem_singleton.mp hc
      decide
  have hpart : partitionColon (key ++ ':' :: value) = (key, value) := by
    have hkey : ∀ c ∈ key, decide (c ≠ ':') = true := List.all_eq_true.mp (by decide)
    rw [partitionColon, List.takeWhile_append_of_pos hkey, List.dropWhile_append_of_pos hkey]
    simp
  have hvalue : stripBy isPySpace value = Nat.toDigits 10 n := by
    refine stripBy_around (List.all_eq_true.mp (by decide)) (List.all_eq_true.mp (by decide))
      (fun c hc => ?_) Nat.toDigits_ne_nil
    exact Web.not_isPySpace_of_isDigit (hdigits c hc)
  have hkey : String.ofList ((stripBy isPySpace key).map Char.toLower) = "content-length" := by
    decide +kernel
  rw [hline, putHeader, decodeAscii_encode hascii, hpart]
  dsimp only
  rw [hkey, hvalue, contentLength, Table.get_put_self, Option.getD_some, if_neg, headerInt_digits h]
  intro hempty
  have hnil := congrArg String.toList hempty
  rw [String.toList_ofList] at hnil
  exact Nat.toDigits_ne_nil hnil

theorem newline_not_mem {n : Nat} : 10 ∉ encodeUtf8 (lengthLine n) := by
  rw [encodeUtf8_ascii fun c hc => (lengthLine_chars c hc).1]
  intro hmem
  obtain ⟨c, hc, hbyte⟩ := List.mem_map.mp hmem
  obtain ⟨hascii, hne⟩ := lengthLine_chars c hc
  have hnat := toNat_byte hascii
  rw [hbyte] at hnat
  exact hne (char_of_toNat hnat.symm).symm

/-- Python finds room for the message and does not give up on it. -/
structure Fits (py : Interp) (obj : Payload) : Prop where
  room : (encodeUtf8 (Core.dumps oneLine 0 (.obj obj))).length ≤ py.room
  parses : py.givesUp (Core.dumps oneLine 0 (.obj obj)) = false
  within : py.beyond (Core.dumps oneLine 0 (.obj obj)) = false

section Written
variable {py : Interp} {broken : Bool} {obj : Payload}

theorem declared_written (h : (encodeUtf8 (Core.dumps oneLine 0 (.obj obj))).length ≤ py.room) :
    (writtenFrame (.obj obj)).declared = (encodeUtf8 (Core.dumps oneLine 0 (.obj obj))).length := by
  have hlen := contentLength_line (h.trans_lt py.room_lt)
  simp only [Frame.declared, Frame.headers, writtenFrame, List.foldl_cons, List.foldl_nil, hlen,
    Option.getD_some, Int.toNat_natCast]

theorem parseBody_written (hfit : Fits py obj) (h : (Json.obj obj).Plain py.canon) :
    parseBody py (encodeUtf8 (Core.dumps oneLine 0 (.obj obj))) = .message obj := by
  have hloads := @loads_dumps py.canon oneLine blank_oneLine 0 (.obj obj) [] [] h
    (fun _ hc => absurd hc List.not_mem_nil) (fun _ hc => absurd hc List.not_mem_nil)
  rw [List.nil_append, List.append_nil] at hloads
  rw [parseBody, decodeUtf8_encode]
  dsimp only
  rw [hfit.parses, hfit.within, hloads]
  rfl

theorem body_written : (writtenFrame (.obj obj)).body ≠ [] := by
  intro hnil
  have hchars : ∃ cs, Core.dumps oneLine 0 (.obj obj) = '{' :: cs := by
    cases obj with
    | nil => exact ⟨_, rfl⟩
    | cons f fs => exact ⟨_, rfl⟩
  obtain ⟨cs, hcs⟩ := hchars
  dsimp only [writtenFrame] at hnil
  rw [hcs, encodeUtf8, List.flatMap_cons, List.append_eq_nil_iff] at hnil
  exact String.utf8EncodeChar_ne_nil hnil.1

theorem written_delimited (hfit : Fits py obj) (h : (Json.obj obj).Plain py.canon) :
    (writtenFrame (.obj obj)).Delimited py ∧ (writtenFrame (.obj obj)).message py = some obj := by
  have hparse : parseBody py (writtenFrame (.obj obj)).body = .message obj := parseBody_written hfit h
  have hdeclared := declared_written hfit.room
  refine ⟨⟨⟨fun line hline => ?_, ?_⟩, hdeclared.symm, ?_, fun _ => ?_⟩, ?_⟩
  · obtain rfl := List.mem_singleton.mp hline
    exact ⟨newline_not_mem, _, List.mem_append_left _ List.mem_cons_self, by decide⟩
  · intro b hb
    exact List.mem_singleton.mp hb
  · rw [hdeclared]
    exact hfit.room
  · rw [hparse]
    exact ⟨Parsed.noConfusion, Parsed.noConfusion⟩
  · exact Frame.message_eq_some.mpr ⟨body_written, hparse⟩

/-- What `_write` wrote is read back, whatever stands behind it. -/
theorem read_written (hfit : Fits py obj) (h : (Json.obj obj).Plain py.canon) (rest : Bytes) :
    read py broken (write (.obj obj) ++ rest) = .message obj rest := by
  obtain ⟨hframe, hmsg⟩ := written_delimited hfit h
  rw [write_eq, read_frame hframe, hmsg]
  rfl

theorem messages_written {objs : List Payload} (h : ∀ obj ∈ objs, Fits py obj ∧
    (Json.obj obj).Plain py.canon) (rest : Bytes) :
    messages py broken (objs.flatMap (fun obj => write (.obj obj)) ++ rest) =
      objs ++ messages py broken rest := by
  induction objs with
  | nil => rfl
  | cons obj objs ih =>
    obtain ⟨⟨hfit, hplain⟩, hrest⟩ := List.forall_mem_cons.mp h
    rw [List.flatMap_cons, List.append_assoc, messages_eq, read_written hfit hplain,
      ReadResult.messages, ih hrest]
    rfl

end Written

/-! ## Streams -/

section Streams
variable {py : Interp} {broken : Bool}

/-- Frames on end: their objects are read, in order, whatever the others hold. -/
theorem messages_frames {fs : List Frame} (h : ∀ f ∈ fs, f.Delimited py) (rest : Bytes) :
    messages py broken (fs.flatMap Frame.bytes ++ rest) =
      fs.filterMap (Frame.message py) ++ messages py broken rest := by
  induction fs with
  | nil => rfl
  | cons f fs ih =>
    rw [List.forall_mem_cons] at h
    rw [List.flatMap_cons, List.append_assoc, messages_eq, read_frame h.1]
    cases hmsg : f.message py with
    | none =>
      rw [Option.elim_none, ← messages_eq, ih h.2, List.filterMap_cons_none hmsg]
    | some obj =>
      rw [Option.elim_some, ReadResult.messages, ih h.2, List.filterMap_cons_some hmsg]
      rfl

end Streams

/-! Noise in front of a message. Here Python leaves every number as it was read. -/

def sampleInterp : Interp where
  canon := id
  canonical _ h := .inr (.inr (.inr ⟨h, rfl⟩))
  canon_int _ := rfl
  givesUp _ := false
  beyond _ := false
  room := 65536
  room_lt := by decide
  repr _ := ""
  str _ := ""

/-- `{"id": 1, "method": "ping"}` -/
def ping : Payload := [("id", .num "1"), ("method", .str "ping")]

theorem plain_ping : (Json.obj ping).Plain sampleInterp.canon := by
  have hone : PlainNumber id "1" := .inr (.inr (.inr ⟨isToken_int 1, rfl⟩))
  simp [ping, Json.Plain, PlainFields, sampleInterp, hone]

theorem fits_ping : Fits sampleInterp ping := ⟨by decide +kernel, rfl, rfl⟩

/-- `Content-Length: x`, and a frame without headers. -/
def noise : List Frame := [⟨[encodeUtf8 "Content-Length: x\r".toList], [13], []⟩, ⟨[], [], []⟩]

theorem noise_delimited : ∀ f ∈ noise, f.Delimited sampleInterp ∧ f.message sampleInterp = none := by
  have hdeclared : ∀ f ∈ noise, f.declared = 0 := by decide +kernel
  have hbody : ∀ f ∈ noise, f.body = [] := by decide +kernel
  have hlines : ∀ f ∈ noise, ∀ line ∈ f.lines, 10 ∉ line ∧ ∃ b ∈ line, b ≠ 13 := by decide +kernel
  have hblank : ∀ f ∈ noise, ∀ b ∈ f.blank, b = 13 := by decide +kernel
  intro f hf
  refine ⟨⟨⟨hlines f hf, hblank f hf⟩, ?_, ?_, fun hne => absurd (hbody f hf) hne⟩, ?_⟩
  · rw [hbody f hf, hdeclared f hf]
    rfl
  · rw [hdeclared f hf]
    exact Nat.zero_le _
  · exact Frame.message_of_nil (hbody f hf)

/-- The message behind the noise is read. -/
theorem ping_behind_noise :
    messages sampleInterp false ((noise ++ [writtenFrame (.obj ping)]).flatMap Frame.bytes ++ []) =
      [ping] := by
  obtain ⟨hping, hmsg⟩ := written_delimited fits_ping plain_ping
  refine (messages_frames (fun f hf => ?_) []).trans ?_
  · rcases List.mem_append.mp hf with hf | hf
    · exact (noise_delimited f hf).1
    · obtain rfl := List.mem_singleton.mp hf
      exact hping
  · have hnone : noise.filterMap (Frame.message sampleInterp) = [] :=
      List.filterMap_eq_nil_iff.mpr fun f hf => (noise_delimited f hf).2
    rw [List.filterMap_append, hnone, List.filterMap_cons_some hmsg]
    rfl

/-- Nothing is read of what begins with no frame but the object of a last body that is cut
short. -/
theorem messages_tail {py : Interp} {broken : Bool} {tail : Bytes}
    (htail : ∀ (g : Frame) rest, g.Delimited py → tail ≠ g.bytes ++ rest) :
    ∃ last : Option Payload, messages py broken tail = last.toList ∧
      ∀ obj, last = some obj ↔ broken = false ∧ ∃ f : Frame, tail = f.bytes ∧ f.CutShort py obj := by
  have hmsgs := @messages_eq py broken tail
  rw [read_eq] at hmsgs
  have hfinds := @readFrame_finds py broken tail
  have hcut : ∀ {obj : Payload}, broken = false → (∃ f : Frame, tail = f.bytes ∧
      f.CutShort py obj) → readFrame py broken tail = .inl (.message obj []) := by
    rintro obj rfl ⟨f, rfl, hf⟩
    exact readFrame_cutShort hf
  generalize readFrame py broken tail = found at hmsgs hfinds hcut
  have hnone : (∀ obj, found ≠ .inl (.message obj [])) → ∀ obj : Payload, (none : Option Payload) =
      some obj ↔ broken = false ∧ ∃ f : Frame, tail = f.bytes ∧ f.CutShort py obj := fun hne obj =>
    ⟨nofun, fun h => absurd (hcut h.1 h.2) (hne obj)⟩
  cases hfinds with
  | ended => exact ⟨none, hmsgs, hnone nofun⟩
  | raised => exact ⟨none, hmsgs, hnone nofun⟩
  | beyond => exact ⟨none, hmsgs, hnone nofun⟩
  | cut => exact ⟨none, hmsgs, hnone nofun⟩
  | skipped f rest hbs hf _ => exact absurd hbs (htail f rest hf)
  | message f rest obj hbs hf _ => exact absurd hbs (htail f rest hf)
  | cutShort f obj hbs hbroken hf =>
    refine ⟨some obj, hmsgs, fun obj' => ⟨fun heq => ?_, fun h => ?_⟩⟩
    · obtain rfl := Option.some.inj heq
      exact ⟨hbroken, f, hbs, hf⟩
    · obtain ⟨rfl, -⟩ := ReadResult.message.inj (Sum.inl.inj (hcut h.1 h.2))
      rfl

/-- Any bytes are frames, behind which stands what begins with no frame: what is read are
the objects of the frames, in order, and behind them that of a last body that is cut short. -/
theorem messages_only (py : Interp) (broken : Bool) (bs : Bytes) :
    ∃ (fs : List Frame) (tail : Bytes) (last : Option Payload),
      bs = fs.flatMap Frame.bytes ++ tail ∧ (∀ f ∈ fs, f.Delimited py) ∧
      (∀ (g : Frame) rest, g.Delimited py → tail ≠ g.bytes ++ rest) ∧
      messages py broken bs = fs.filterMap (Frame.message py) ++ last.toList ∧
      ∀ obj, last = some obj ↔ broken = false ∧ ∃ f : Frame, tail = f.bytes ∧ f.CutShort py obj := by
  induction hn : bs.length using Nat.strong_induction_on generalizing bs with
  | _ n ih =>
    by_cases hframe : ∃ (g : Frame) (rest : Bytes), g.Delimited py ∧ bs = g.bytes ++ rest
    · obtain ⟨g, rest, hg, rfl⟩ := hframe
      have hlt : rest.length < n := by
        rw [← hn]
        simp only [Frame.bytes, List.length_append, List.length_cons]
        omega
      obtain ⟨fs, tail, last, rfl, hfs, htail, hmsgs, hlast⟩ := ih rest.length hlt rest rfl
      refine ⟨g :: fs, tail, last, ?_, List.forall_mem_cons.mpr ⟨hg, hfs⟩, htail, ?_, hlast⟩
      · rw [List.flatMap_cons, List.append_assoc]
      · rw [messages_eq, read_frame hg]
        cases hmsg : g.message py with
        | none => rw [Option.elim_none, ← messages_eq, hmsgs, List.filterMap_cons_none hmsg]
        | some obj =>
          rw [Option.elim_some, ReadResult.messages, hmsgs, List.filterMap_cons_some hmsg]
          rfl
    · have htail : ∀ (g : Frame) rest, g.Delimited py → bs ≠ g.bytes ++ rest :=
        fun g rest hg hbs => hframe ⟨g, rest, hg, hbs⟩
      obtain ⟨last, hmsgs, hlast⟩ := @messages_tail py broken bs htail
      exact ⟨[], bs, last, rfl, fun _ hf => absurd hf List.not_mem_nil, htail, hmsgs, hlast⟩

end Nightfall.Mcp
