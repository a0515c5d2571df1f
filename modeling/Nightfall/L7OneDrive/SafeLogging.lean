import Mathlib.Data.List.Infix
import Mathlib.Data.List.TakeWhile
import Nightfall.Core.Values

/-!
# Safe logging (`adapters/onedrive/safe_logging.py`)

What goes into a log record is copied with its secrets cut out: under a key that reads like
a token a text leaves six characters and its length, elsewhere a URL leaves what stands
before its query.

* `redactToken`, `redactUrl`: one text (`adapters/onedrive/errors.py`).
* `urlparse_eq`: what the parser makes of a URL before its query does not depend on the rest.
* `Masked`: two texts that differ in their secrets only.
* `sanitizeExtra_noninterfering`: payloads alike up to such texts leave equal records.
-/
namespace Nightfall.OneDrive
open Nightfall.Core

/-! ## Parsing a URL -/

structure ParseResult where
  scheme : List Char
  netloc : List Char
  path : List Char
  params : List Char
  query : List Char
  fragment : List Char
  deriving DecidableEq, Repr

/-- `re.IGNORECASE` takes four letters beyond ASCII for Latin ones. -/
def foldCase (c : Char) : Char :=
  if c = 'İ' || c = 'ı' then 'i'
  else if c = 'ſ' then 's'
  else if c = Char.ofNat 0x212A then 'k'
  else c.toLower

/-- The text a URL is parsed from: without control characters and blanks in front, and
without tabs and line breaks. -/
def urlText (url : List Char) : List Char :=
  (url.dropWhile fun c => c ≤ ' ').filter fun c => c ∉ ['\t', '\r', '\n']

/-- `cs.split(sep, 1)`, the second part empty when there is none. -/
def splitFirst (sep : Char) (cs : List Char) : List Char × List Char :=
  (cs.takeWhile (· != sep), (cs.dropWhile (· != sep)).drop 1)

def isSchemeChar (c : Char) : Bool := c.isAlphanum || c ∈ ['+', '-', '.']

def isScheme (cs : List Char) : Bool := cs.head?.any Char.isAlpha && cs.all isSchemeChar

/-- The scheme in front of the first colon, and what is behind it. -/
def splitScheme (url : List Char) : List Char × List Char :=
  match url.dropWhile (· != ':') with
  | _ :: rest =>
    if isScheme (url.takeWhile (· != ':')) then
      ((url.takeWhile (· != ':')).map Char.toLower, rest)
    else ([], url)
  | [] => ([], url)

def isNetlocChar (c : Char) : Bool := c ∉ ['/', '?', '#']

def splitNetloc : List Char → List Char × List Char
  | '/' :: '/' :: rest => (rest.takeWhile isNetlocChar, rest.dropWhile isNetlocChar)
  | url => ([], url)

def usesParams : List (List Char) :=
  ["", "ftp", "hdl", "prospero", "http", "https", "shttp", "rtsp", "rtspu", "sip", "sips", "mms",
    "sftp", "tel"].map String.toList

/-- The parameters of the last segment of a path. -/
def splitParams (url : List Char) : List Char × List Char :=
  let last := (url.reverse.takeWhile (· != '/')).reverse
  (url.take (url.length - last.length) ++ (splitFirst ';' last).1, (splitFirst ';' last).2)

/-- `urlparse(url)`; `none` when it raises. `refused` are the netlocs it raises for
(unpaired brackets, characters that normalise to a separator). -/
def urlparse (refused : List Char → Bool) (url : List Char) : Option ParseResult :=
  let (scheme, url) := splitScheme (urlText url)
  let (netloc, url) := splitNetloc url
  let (url, fragment) := splitFirst '#' url
  let (url, query) := splitFirst '?' url
  if refused netloc then none
  else
    let (path, params) := if scheme ∈ usesParams then splitParams url else (url, [])
    some { scheme, netloc, path, params, query, fragment }

/-! ## Redaction -/

/-- mirrors src/nightfall_photo_ingress/adapters/onedrive/errors.py:28-61 -/
def redactUrl (refused : List Char → Bool) (url : String) : String :=
  if url = "" then "<empty-url>"
  else
    match urlparse refused url.toList with
    | none => "<unparseable-url>"
    | some parsed =>
      let base := parsed.scheme ++ "://".toList ++ parsed.netloc ++ parsed.path
      if parsed.query ≠ [] then
        let base := if 80 < base.length then base.take 77 ++ ['…'] else base
        String.ofList (base ++ " [query redacted]".toList)
      else String.ofList (if 120 < base.length then base.take 117 ++ ['…'] else base)

/-- mirrors src/nightfall_photo_ingress/adapters/onedrive/errors.py:64-74 -/
def redactToken (token : String) : String :=
  if token = "" then "<empty-token>"
  else
    let characters := token.toList
    let start := if 6 ≤ characters.length then characters.take 6 else characters
    String.ofList start ++ "…[" ++ toString characters.length ++ " chars]"

/-- `_TOKEN_KEY_RE`. -/
def tokenWords : List String :=
  ["token", "secret", "authorization", "auth", "password", "sig", "tempauth", "client_secret"]

/-- `key_hint and _TOKEN_KEY_RE.search(key_hint)` -/
def isTokenKey (keyHint : Option String) : Bool :=
  keyHint.any fun key => (key.toList.map foldCase).tails.any fun tail =>
    tokenWords.any fun word => word.toList.isPrefixOf tail

/-- `_URL_VALUE_RE.match(value)` -/
def isUrlValue (value : String) : Bool :=
  ["http://", "https://"].any fun start => start.toList.isPrefixOf (value.toList.map foldCase)

section Sanitize
variable (refused : List Char → Bool)

def sanitizeText (keyHint : Option String) (value : String) : String :=
  if isTokenKey keyHint then redactToken value
  else if isUrlValue value then redactUrl refused value
  else value

mutual

/-- mirrors src/nightfall_photo_ingress/adapters/onedrive/safe_logging.py:23-57 -/
def sanitizeForLog (keyHint : Option String) : PyValue → PyValue
  | .none => .none
  | .bool b => .bool b
  | .int n => .int n
  | .float bits => .float bits
  | .path s => .text s
  | .text value => .text (sanitizeText refused keyHint value)
  | .dict entries => .dict (sanitizeEntries [] entries)
  | .list items => .list (sanitizeItems keyHint items)
  | .tuple items => .list (sanitizeItems keyHint items)
  | .set items => .list (sanitizeItems keyHint items)
  | .other s => .text s

def sanitizeItems (keyHint : Option String) : List PyValue → List PyValue
  | [] => []
  | item :: items => sanitizeForLog keyHint item :: sanitizeItems keyHint items

def sanitizeEntries (sanitized : List (PyKey × PyValue)) :
    List (PyKey × PyValue) → List (PyKey × PyValue)
  | [] => sanitized
  | (key, nested) :: entries =>
    sanitizeEntries (setItem (.text key.str) (sanitizeForLog (some key.str) nested) sanitized)
      entries

end

/-- mirrors src/nightfall_photo_ingress/adapters/onedrive/safe_logging.py:60-63 -/
def sanitizeExtra (extra : List (PyKey × PyValue)) : List (PyKey × PyValue) :=
  dictOf (extra.map fun e => (.text e.1.str, sanitizeForLog refused (some e.1.str) e.2))

end Sanitize

/-! ## The part before the query -/

/-- What stands before the first `?` or `#`. -/
def beforeQuery (url : List Char) : List Char := url.takeWhile fun c => c ∉ ['?', '#']

/-- What stands behind the first `?` that no `#` precedes, up to the next `#`. -/
def urlQuery (url : List Char) : List Char :=
  (splitFirst '?' (splitFirst '#' url).1).2

/-- Nothing, or it starts with `?` or `#`. -/
def StopsUrl (rest : List Char) : Prop := ∀ c ∈ rest.head?, c ∈ ['?', '#']

section Prefix
variable {p : Char → Bool} {base rest : List Char}

theorem takeWhile_append_of_head (h : ∀ c ∈ rest.head?, p c = false) : ∀ base : List Char,
    (base ++ rest).takeWhile p = base.takeWhile p
  | [] => by
    cases rest with
    | nil => rfl
    | cons c rest => simp [h c rfl]
  | c :: base => by
    rw [List.cons_append, List.takeWhile_cons, List.takeWhile_cons, takeWhile_append_of_head h]

theorem dropWhile_append_of_head (h : ∀ c ∈ rest.head?, p c = false) : ∀ base : List Char,
    (base ++ rest).dropWhile p = base.dropWhile p ++ rest
  | [] => by
    cases rest with
    | nil => rfl
    | cons c rest => simp [h c rfl]
  | c :: base => by
    rw [List.cons_append, List.dropWhile_cons, List.dropWhile_cons, dropWhile_append_of_head h]
    split <;> rfl

theorem exists_stop (url : List Char) : ∃ rest, url = beforeQuery url ++ rest ∧ StopsUrl rest := by
  refine ⟨url.dropWhile fun c => c ∉ ['?', '#'], List.takeWhile_append_dropWhile.symm, ?_⟩
  intro c hc
  have hstop := List.head?_dropWhile_not (fun c => decide (c ∉ ['?', '#'])) url
  rw [Option.mem_def.mp hc] at hstop
  simpa [or_iff_not_imp_left] using hstop

theorem mem_beforeQuery {url : List Char} {c : Char} (h : c ∈ beforeQuery url) :
    c ∉ ['?', '#'] := by
  simpa using List.mem_takeWhile_imp h

theorem isScheme_of_stop {cs : List Char} {c : Char} (hc : c ∈ cs) (hstop : c ∈ ['?', '#']) :
    isScheme cs = false := by
  have hchar : isSchemeChar c = false := by
    rcases List.mem_cons.mp hstop with rfl | h
    · rfl
    · rw [List.mem_singleton.mp h]
      rfl
  have hall : cs.all isSchemeChar = false := List.all_eq_false.mpr ⟨c, hc, by simp [hchar]⟩
  rw [isScheme, hall, Bool.and_false]

theorem splitScheme_colon {scheme : List Char} (h : ':' ∉ scheme) (rest : List Char) :
    splitScheme (scheme ++ ':' :: rest) =
      if isScheme scheme then (scheme.map Char.toLower, rest) else ([], scheme ++ ':' :: rest) := by
  have hself : ∀ c ∈ scheme, (c != ':') = true := fun c hc => by
    simpa using fun heq : c = ':' => h (heq ▸ hc)
  have htake : (scheme ++ ':' :: rest).takeWhile (· != ':') = scheme := by
    rw [takeWhile_append_of_head (by simp), List.takeWhile_eq_self_iff.mpr hself]
  have hdrop : (scheme ++ ':' :: rest).dropWhile (· != ':') = ':' :: rest := by
    rw [dropWhile_append_of_head (by simp), List.dropWhile_eq_nil_iff.mpr hself, List.nil_append]
  rw [splitScheme, hdrop, htake]

theorem splitScheme_none {url : List Char} (h : isScheme (url.takeWhile (· != ':')) = false ∨
    ':' ∉ url) : splitScheme url = ([], url) := by
  unfold splitScheme
  split
  · next rest hdrop =>
    rcases h with h | h
    · rw [h, if_neg Bool.false_ne_true]
    · have hall : url.dropWhile (· != ':') = [] := List.dropWhile_eq_nil_iff.mpr fun c hc => by
        simpa using fun heq : c = ':' => h (heq ▸ hc)
      rw [hall] at hdrop
      cases hdrop
  · rfl

/-- The characters a URL stops at belong to no scheme. -/
theorem splitScheme_append (hrest : StopsUrl rest) (base : List Char) :
    splitScheme (base ++ rest) = ((splitScheme base).1, (splitScheme base).2 ++ rest) := by
  by_cases hcolon : ':' ∈ base
  · obtain ⟨scheme, tail, rfl, hscheme⟩ := List.eq_append_cons_of_mem hcolon
    rw [List.append_assoc, List.cons_append, splitScheme_colon hscheme, splitScheme_colon hscheme]
    split
    · rfl
    · rw [List.append_assoc, List.cons_append]
  · rw [splitScheme_none (.inr hcolon)]
    cases rest with
    | nil => rw [List.append_nil, splitScheme_none (.inr hcolon)]
    | cons c rest =>
      refine splitScheme_none (.inl (isScheme_of_stop ?_ (hrest c rfl)))
      have hne : (c != ':') = true := by
        rcases List.mem_cons.mp (hrest c rfl) with rfl | h
        · rfl
        · rw [List.mem_singleton.mp h]
          rfl
      have hself : ∀ d ∈ base, (d != ':') = true := fun d hd => by
        simpa using fun heq : d = ':' => hcolon (heq ▸ hd)
      rw [List.takeWhile_append_of_pos hself]
      simp [hne]

theorem isNetlocChar_of_stop {c : Char} (h : c ∈ ['?', '#']) : isNetlocChar c = false := by
  rcases List.mem_cons.mp h with rfl | h
  · rfl
  · rw [List.mem_singleton.mp h]
    rfl

theorem splitNetloc_append (hrest : StopsUrl rest) (base : List Char) :
    splitNetloc (base ++ rest) = ((splitNetloc base).1, (splitNetloc base).2 ++ rest) := by
  have hstop : ∀ c ∈ rest.head?, isNetlocChar c = false :=
    fun c hc => isNetlocChar_of_stop (hrest c hc)
  have hslash : ∀ c ∈ rest.head?, c ≠ '/' := fun c hc heq => by
    have h := hrest c hc
    rw [heq] at h
    exact absurd h (by decide)
  unfold splitNetloc
  split
  · next tail h =>
    match base with
    | [] => exact absurd rfl (hslash '/' (by simp [show rest = '/' :: '/' :: tail from h]))
    | [_] =>
      have hhead := (List.cons.inj h).2
      exact absurd rfl (hslash '/' (by simp [show rest = '/' :: tail from hhead]))
    | c :: d :: base =>
      obtain ⟨rfl, hcons⟩ := List.cons.inj h
      obtain ⟨rfl, htail⟩ := List.cons.inj hcons
      have hbase : base ++ rest = tail := htail
      rw [← hbase, takeWhile_append_of_head hstop, dropWhile_append_of_head hstop]
      rfl
  · next hother =>
    split
    · next tail => exact absurd rfl (hother (tail ++ rest))
    · rfl

theorem splitFirst_append {sep : Char} {cs : List Char} (h : sep ∉ cs) (rest : List Char) :
    splitFirst sep (cs ++ rest) = (cs ++ (splitFirst sep rest).1, (splitFirst sep rest).2) := by
  have hself : ∀ c ∈ cs, (c != sep) = true := fun c hc => by
    simpa using fun heq : c = sep => h (heq ▸ hc)
  rw [splitFirst, List.takeWhile_append_of_pos hself, List.dropWhile_append_of_pos hself]
  rfl

theorem mem_splitScheme {cs : List Char} {c : Char} (h : c ∈ (splitScheme cs).2) : c ∈ cs := by
  unfold splitScheme at h
  split at h
  · next tail hdrop =>
    split at h
    · refine (List.dropWhile_sublist (· != ':')).mem ?_
      rw [hdrop]
      exact List.mem_cons_of_mem _ h
    · exact h
  · exact h

theorem mem_splitNetloc {cs : List Char} {c : Char} (h : c ∈ (splitNetloc cs).2) : c ∈ cs := by
  unfold splitNetloc at h
  split at h
  · next tail =>
    exact List.mem_cons_of_mem _ (List.mem_cons_of_mem _ ((List.dropWhile_sublist _).mem h))
  · exact h

theorem splitFirst_stop (hrest : StopsUrl rest) :
    (splitFirst '?' (splitFirst '#' rest).1).1 = [] := by
  cases rest with
  | nil => rfl
  | cons c rest =>
    rcases List.mem_cons.mp (hrest c rfl) with rfl | h
    · rfl
    · rw [List.mem_singleton.mp h]
      rfl

end Prefix

/-- The result for the part before the query alone. -/
def urlStart (refused : List Char → Bool) (base : List Char) : Option ParseResult :=
  let (scheme, url) := splitScheme base
  let (netloc, url) := splitNetloc url
  if refused netloc then none
  else
    let (path, params) := if scheme ∈ usesParams then splitParams url else (url, [])
    some { scheme, netloc, path, params, query := [], fragment := [] }

/-- The query and the fragment are all that what stands behind the first `?` or `#`
decides. -/
theorem urlparse_eq (refused : List Char → Bool) (url : List Char) :
    urlparse refused url = (urlStart refused (beforeQuery (urlText url))).map fun parsed =>
      { parsed with
        query := urlQuery (urlText url)
        fragment := (splitFirst '#' (urlText url)).2 } := by
  obtain ⟨rest, htext, hrest⟩ := exists_stop (urlText url)
  have hno : ∀ c ∈ ['?', '#'], c ∉ beforeQuery (urlText url) := fun c hc hmem =>
    mem_beforeQuery hmem hc
  unfold urlparse urlStart urlQuery
  generalize beforeQuery (urlText url) = base at *
  have hpath : ∀ c ∈ ['?', '#'], c ∉ (splitNetloc (splitScheme base).2).2 := fun c hc hmem =>
    hno c hc (mem_splitScheme (mem_splitNetloc hmem))
  rw [htext]
  simp only [splitScheme_append hrest, splitNetloc_append hrest,
    splitFirst_append (hpath '#' (by decide)), splitFirst_append (hpath '?' (by decide)),
    splitFirst_append (hno '#' (by decide)), splitFirst_append (hno '?' (by decide)),
    splitFirst_stop hrest, List.append_nil]
  split
  · rfl
  · rfl

/-! ## Two runs -/

/-- URLs that differ in their queries, none of them empty, and their fragments. -/
structure SameUrl (s s' : String) : Prop where
  isUrl : isUrlValue s = true
  isUrl' : isUrlValue s' = true
  base : beforeQuery (urlText s.toList) = beforeQuery (urlText s'.toList)
  query : urlQuery (urlText s.toList) ≠ []
  query' : urlQuery (urlText s'.toList) ≠ []

/-- Tokens of one length, at least six, that agree in their first six characters. -/
structure SameToken (s s' : String) : Prop where
  long : 6 ≤ s.toList.length
  length : s.toList.length = s'.toList.length
  start : s.toList.take 6 = s'.toList.take 6

/-- Texts that differ in their secrets only. -/
def Masked (keyHint : Option String) (s s' : String) : Prop :=
  isTokenKey keyHint = true ∧ SameToken s s' ∨ isTokenKey keyHint = false ∧ SameUrl s s'

section Congr
variable {refused : List Char → Bool} {keyHint : Option String} {s s' : String}

theorem redactToken_congr (h : SameToken s s') : redactToken s = redactToken s' := by
  have hlong' : 6 ≤ s'.toList.length := h.length ▸ h.long
  have hne : ∀ t : String, 6 ≤ t.toList.length → t ≠ "" := by
    rintro t ht rfl
    exact absurd ht (by decide)
  simp only [redactToken, hne s h.long, hne s' hlong', hlong', if_true, if_false, h.start,
    h.length]

theorem redactUrl_congr (h : SameUrl s s') : redactUrl refused s = redactUrl refused s' := by
  have hne : ∀ t : String, urlQuery (urlText t.toList) ≠ [] → t ≠ "" := by
    rintro t ht rfl
    exact ht rfl
  unfold redactUrl
  rw [if_neg (hne s h.query), if_neg (hne s' h.query'), urlparse_eq, urlparse_eq, h.base]
  cases urlStart refused (beforeQuery (urlText s'.toList)) with
  | none => rfl
  | some parsed =>
    simp only [Option.map_some, h.query, h.query', ne_eq, not_false_eq_true, if_true]

theorem sanitizeText_congr (h : Masked keyHint s s') :
    sanitizeText refused keyHint s = sanitizeText refused keyHint s' := by
  unfold sanitizeText
  rcases h with ⟨hkey, htoken⟩ | ⟨hkey, hurl⟩
  · rw [hkey, if_pos rfl, if_pos rfl, redactToken_congr htoken]
  · rw [hkey, hurl.isUrl, hurl.isUrl', if_neg Bool.false_ne_true, if_pos rfl,
      if_neg Bool.false_ne_true, if_pos rfl, redactUrl_congr hurl]

/-! ### Nesting -/

theorem sanitizeItems_eq (items : List PyValue) :
    sanitizeItems refused keyHint items = items.map (sanitizeForLog refused keyHint) := by
  induction items with
  | nil => rfl
  | cons item items ih => rw [sanitizeItems, ih, List.map_cons]

/-- A nested dictionary is sanitized as a payload is. -/
theorem sanitizeEntries_eq (entries : List (PyKey × PyValue)) :
    sanitizeEntries refused [] entries = sanitizeExtra refused entries := by
  suffices h : ∀ sanitized, sanitizeEntries refused sanitized entries =
      (entries.map fun e => (PyKey.text e.1.str, sanitizeForLog refused (some e.1.str) e.2)).foldl
        (fun d e => setItem e.1 e.2 d) sanitized from h []
  induction entries with
  | nil => exact fun _ => rfl
  | cons e entries ih =>
    intro sanitized
    rw [sanitizeEntries, ih, List.map_cons, List.foldl_cons]

theorem sanitizeForLog_dict (entries : List (PyKey × PyValue)) :
    sanitizeForLog refused keyHint (.dict entries) = .dict (sanitizeExtra refused entries) := by
  rw [sanitizeForLog, sanitizeEntries_eq]

/-- Entries whose sanitized values are alike, in one order or with different names. -/
theorem sanitizeExtra_alike {es mid es' : List (PyKey × PyValue)}
    (h : Entrywise (fun key v v' => Alike SameText (some key.str)
      (sanitizeForLog refused (some key.str) v) (sanitizeForLog refused (some key.str) v')) es mid)
    (horder : mid = es' ∨ mid.Perm es' ∧ (es.map fun e => e.1.str).Nodup) :
    Alike SameText keyHint (.dict (sanitizeExtra refused es))
      (.dict (sanitizeExtra refused es')) := by
  let item : PyKey × PyValue → PyKey × PyValue :=
    fun e => (.text e.1.str, sanitizeForLog refused (some e.1.str) e.2)
  have hitems : Entrywise (fun key => Alike SameText (some key.str)) (es.map item)
      (mid.map item) := by
    refine List.forall₂_map_left_iff.mpr (List.forall₂_map_right_iff.mpr (h.imp fun e e' he => ?_))
    obtain ⟨hkey, hvalue⟩ := he
    refine ⟨congrArg (fun key => PyKey.text key.str) hkey, ?_⟩
    show Alike SameText (some e.1.str) (sanitizeForLog refused (some e.1.str) e.2)
      (sanitizeForLog refused (some e'.1.str) e'.2)
    rwa [hkey] at hvalue ⊢
  have hname : ∀ es : List (PyKey × PyValue),
      (es.map item).map Prod.fst = (es.map fun e => e.1.str).map PyKey.text := by
    intro es
    rw [List.map_map, List.map_map]
    rfl
  have hdict : ∀ es : List (PyKey × PyValue), (es.map fun e => e.1.str).Nodup →
      sanitizeExtra refused es = es.map item := by
    intro es hes
    refine dictOf_of_nodup ?_
    rw [hname]
    exact hes.map fun _ _ heq => PyKey.text.inj heq
  rcases horder with rfl | ⟨hperm, hnames⟩
  · exact .of_entries hitems.dictOf (.inl rfl)
  · have hmid : (mid.map fun e => e.1.str) = es.map fun e => e.1.str := by
      have hkeys := congrArg (List.map PyKey.str) h.keys
      rw [List.map_map, List.map_map] at hkeys
      exact hkeys.symm
    have hnames' : (es'.map fun e => e.1.str).Nodup :=
      (hperm.map fun e => e.1.str).nodup_iff.mp (hmid ▸ hnames)
    rw [hdict es hnames, hdict es' hnames']
    refine .of_entries hitems (.inr ⟨hperm.map item, ?_⟩)
    rw [List.map_map]
    exact hnames

/-- Values alike up to their secrets are alike when they are sanitized. -/
theorem sanitizeForLog_alike {v v' : PyValue} (h : Alike Masked keyHint v v') :
    ∀ hint, Alike SameText hint (sanitizeForLog refused keyHint v)
      (sanitizeForLog refused keyHint v') := by
  induction h with
  | same => exact fun _ => .same
  | text h =>
    intro hint
    rw [sanitizeForLog, sanitizeForLog, sanitizeText_congr h]
    exact .same
  | list hlength _ ih =>
    intro hint
    rw [sanitizeForLog, sanitizeForLog, sanitizeItems_eq, sanitizeItems_eq]
    refine .of_items (List.forall₂_map_left_iff.mpr (List.forall₂_map_right_iff.mpr ?_))
    exact forall₂_of_forall_zip hlength fun p hp => ih p hp hint
  | tuple hlength _ ih =>
    intro hint
    rw [sanitizeForLog, sanitizeForLog, sanitizeItems_eq, sanitizeItems_eq]
    refine .of_items (List.forall₂_map_left_iff.mpr (List.forall₂_map_right_iff.mpr ?_))
    exact forall₂_of_forall_zip hlength fun p hp => ih p hp hint
  | dict hkeys _ horder ih =>
    intro hint
    rw [sanitizeForLog_dict, sanitizeForLog_dict]
    exact sanitizeExtra_alike (entrywise_of_zip hkeys fun p hp => ih p hp _) horder

end Congr

/-- Two payloads that are equal except in tokens behind their first six characters and in
the queries and fragments of URLs, at any depth, leave equal records. -/
theorem sanitizeExtra_noninterfering (refused : List Char → Bool)
    {extra extra' : List (PyKey × PyValue)}
    (h : Alike Masked none (.dict extra) (.dict extra')) :
    Alike SameText none (.dict (sanitizeExtra refused extra))
      (.dict (sanitizeExtra refused extra')) := by
  rw [← sanitizeForLog_dict, ← sanitizeForLog_dict]
  exact sanitizeForLog_alike h none

/-- A record with a token in a list and a URL. -/
def transferExtra (token url : String) : List (PyKey × PyValue) :=
  [(.text "auth", .list [.text token]), (.text "href", .text url)]

/-- Another token, another signature, and the entries the other way round. -/
theorem transferExtra_noninterfering :
    Alike SameText none
      (.dict (sanitizeExtra (fun _ => false) (transferExtra "abcdef12" "https://a/b?sig=1")))
      (.dict (sanitizeExtra (fun _ => false)
        (transferExtra "abcdef99" "https://a/b?sig=22#x").reverse)) := by
  have htoken : SameToken "abcdef12" "abcdef99" :=
    ⟨by decide +kernel, by decide +kernel, by decide +kernel⟩
  have hurl : SameUrl "https://a/b?sig=1" "https://a/b?sig=22#x" :=
    ⟨by decide +kernel, by decide +kernel, by decide +kernel, by decide +kernel, by decide +kernel⟩
  have hitems : List.Forall₂ (Alike Masked (some "auth")) [.text "abcdef12"] [.text "abcdef99"] :=
    .cons (.text (.inl ⟨by decide +kernel, htoken⟩)) .nil
  have hentries : Entrywise (fun key => Alike Masked (some key.str))
      (transferExtra "abcdef12" "https://a/b?sig=1")
      (transferExtra "abcdef99" "https://a/b?sig=22#x") :=
    .cons ⟨rfl, .of_items hitems⟩ (.cons ⟨rfl, .text (.inr ⟨by decide +kernel, hurl⟩)⟩ .nil)
  exact sanitizeExtra_noninterfering _
    (.of_entries hentries (.inr ⟨(List.reverse_perm _).symm, by decide +kernel⟩))

end Nightfall.OneDrive
