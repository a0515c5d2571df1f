import Nightfall.L9Govctl.Manifest

/-!
# The manifests that are accepted

The checks of the single fields leave references: groups to groups and targets, targets
to both. A manifest is accepted exactly when every reference is known, no group leads
back to itself, and no target requires itself through others.

* `checkFields`: the checks before any reference is looked at.
* `Fields.GroupRef`, `Fields.Expands`, `Fields.RequiresEdge`: the references as relations.
* `Fields.Leaves`: the targets of a list of references, depth first.
* `expandGroupTargets_leaves`, `expandGroupTargets_error`: what an expansion that returns
  has read, and what one that raises has found.
* `validation_exact`: accepted exactly when well founded, with the flattenings.
-/
namespace Nightfall.Govctl
open Nightfall.Core Storage

/-! ## Fields -/

/-- What the checks of the single fields leave to the checks of the references. -/
structure Fields where
  version : Int
  lockDefault : Bool
  timeoutDefault : Int
  targets : List (String × RawTarget)
  groups : List (String × List String)
  deriving DecidableEq, Repr

/-- Every mapping has distinct keys, as a `dict` has. -/
inductive Loaded : Yaml → Prop
  | null : Loaded .null
  | bool (b : Bool) : Loaded (.bool b)
  | int (i : Int) : Loaded (.int i)
  | str (s : String) : Loaded (.str s)
  | other (text : String) : Loaded (.other text)
  | seq {items : List Yaml} : (∀ item ∈ items, Loaded item) → Loaded (.seq items)
  | map {entries : List (Yaml × Yaml)} : (entries.map (·.1)).Nodup →
      (∀ entry ∈ entries, Loaded entry.2) → Loaded (.map entries)

/-- The checks of the single fields.
mirrors dev/lib/govctl_manifest.py:135-200 -/
def checkFields (raw : Yaml) : Result Fields := do
  let root ← asDict raw "manifest"
  match Yaml.field root "version" with
  | none => fail "version is required"
  | some versionIn =>
    let version ← validatePositiveInt versionIn "version"
    let defaults ← asDict ((Yaml.field root "defaults").getD (.map [])) "defaults"
    let lockDefault ← validateBool ((Yaml.field defaults "lock").getD (.bool false)) "defaults.lock"
    let timeoutDefault ← validatePositiveInt
      ((Yaml.field defaults "timeout_seconds").getD (.int 300)) "defaults.timeout_seconds"
    match Yaml.field root "targets" with
    | none => fail "targets is required"
    | some targetsRaw =>
      let targetsIn ← asDict targetsRaw "targets"
      if targetsIn.isEmpty then fail "targets must not be empty"
      else
        let groupsRaw ← asDict ((Yaml.field root "groups").getD (.map [])) "groups"
        let rawTargets ← collect (readTarget lockDefault timeoutDefault) targetsIn
        let groups ← collect readGroup groupsRaw
        return ⟨version, lockDefault, timeoutDefault, rawTargets, groups⟩

theorem checkFields_bind (raw : Yaml) : validateAndNormalizeManifest raw =
    checkFields raw >>= fun f =>
      normalize f.version f.lockDefault f.timeoutDefault f.targets f.groups := by
  unfold validateAndNormalizeManifest checkFields
  rw [bind_assoc]
  congr 1
  funext root
  cases Yaml.field root "version" with
  | none => rfl
  | some versionIn =>
    simp only [bind_assoc]
    congr 1; funext version
    congr 1; funext defaults
    congr 1; funext lockDefault
    congr 1; funext timeoutDefault
    cases Yaml.field root "targets" with
    | none => rfl
    | some targetsRaw =>
      simp only [bind_assoc]
      congr 1; funext targetsIn
      split
      · rfl
      · simp only [bind_assoc, pure_bind]

theorem entryName_eq_ok {key : Yaml} {kind name : String} (h : entryName key kind = .ok name) :
    Yaml.str name = key := by
  unfold entryName at h
  split at h
  · split at h
    · cases h
    · cases h
      rfl
  · cases h

theorem readTarget_name {lockDefault : Bool} {timeoutDefault : Int} {entry : Yaml × Yaml}
    {target : String × RawTarget} (h : readTarget lockDefault timeoutDefault entry = .ok target) :
    Yaml.str target.1 = entry.1 := by
  obtain ⟨name, hname, h⟩ := bind_eq_ok h
  obtain ⟨_, _, h⟩ := bind_eq_ok h
  obtain ⟨_, _, h⟩ := bind_eq_ok h
  obtain ⟨_, _, h⟩ := bind_eq_ok h
  obtain ⟨_, _, h⟩ := bind_eq_ok h
  obtain ⟨_, _, h⟩ := bind_eq_ok h
  obtain ⟨_, _, h⟩ := bind_eq_ok h
  obtain ⟨_, _, h⟩ := bind_eq_ok h
  cases h
  exact entryName_eq_ok hname

theorem readGroup_name {entry : Yaml × Yaml} {group : String × List String}
    (h : readGroup entry = .ok group) : Yaml.str group.1 = entry.1 := by
  obtain ⟨name, hname, h⟩ := bind_eq_ok h
  obtain ⟨_, _, h⟩ := bind_eq_ok h
  obtain ⟨_, _, h⟩ := bind_eq_ok h
  split at h
  · cases h
  · cases h
    exact entryName_eq_ok hname

theorem Loaded.field {entries : List (Yaml × Yaml)} {key : String} {value : Yaml}
    (h : Loaded (.map entries)) (hvalue : Yaml.field entries key = some value) : Loaded value := by
  cases h with
  | map _ hvalues =>
    obtain ⟨entry, hentry, rfl⟩ := Option.map_eq_some_iff.mp hvalue
    exact hvalues entry (List.mem_of_find?_eq_some hentry)

theorem asDict_eq_ok {value : Yaml} {fieldName : String} {entries : List (Yaml × Yaml)}
    (h : asDict value fieldName = .ok entries) : value = .map entries := by
  unfold asDict at h
  split at h
  · cases h
    rfl
  · cases h

/-- Entries read from a mapping have distinct names. -/
theorem collect_distinct {β : Type} {read : Yaml × Yaml → Result (String × β)}
    (hread : ∀ entry named, read entry = .ok named → Yaml.str named.1 = entry.1)
    {entries : List (Yaml × Yaml)} {named : List (String × β)} (hentries : Loaded (.map entries))
    (h : collect read entries = .ok named) : (named.map (·.1)).Nodup := by
  cases hentries with
  | map hnodup _ =>
    have hmap : named.map (fun named => Yaml.str named.1) = _ := collect_map hread h
    rw [← hmap] at hnodup
    exact (List.map_map (g := Yaml.str) (f := fun named : String × β => named.1) ▸ hnodup :
      ((named.map (·.1)).map Yaml.str).Nodup).of_map

/-- The checked targets and groups have distinct names. -/
theorem checkFields_distinct {raw : Yaml} {f : Fields} (hraw : Loaded raw)
    (h : checkFields raw = .ok f) : (f.targets.map (·.1)).Nodup ∧ (f.groups.map (·.1)).Nodup := by
  obtain ⟨root, hroot, h⟩ := bind_eq_ok h
  rw [asDict_eq_ok hroot] at hraw
  split at h
  · cases h
  obtain ⟨version, _, h⟩ := bind_eq_ok h
  obtain ⟨defaults, _, h⟩ := bind_eq_ok h
  obtain ⟨lockDefault, _, h⟩ := bind_eq_ok h
  obtain ⟨timeoutDefault, _, h⟩ := bind_eq_ok h
  split at h
  · cases h
  next targetsRaw htargets =>
  obtain ⟨targetsIn, htargetsIn, h⟩ := bind_eq_ok h
  rw [asDict_eq_ok htargetsIn] at htargets
  split at h
  · cases h
  obtain ⟨groupsRaw, hgroupsRaw, h⟩ := bind_eq_ok h
  obtain ⟨rawTargets, hrawTargets, h⟩ := bind_eq_ok h
  obtain ⟨groups, hgroups, h⟩ := bind_eq_ok h
  cases h
  refine ⟨collect_distinct (fun _ _ => readTarget_name) (hraw.field htargets) hrawTargets,
    collect_distinct (fun _ _ => readGroup_name) ?_ hgroups⟩
  have hmap := asDict_eq_ok hgroupsRaw
  cases hfield : Yaml.field root "groups" with
  | none =>
    rw [hfield, Option.getD_none] at hmap
    cases hmap
    exact .map List.nodup_nil (by simp)
  | some value =>
    rw [hfield, Option.getD_some] at hmap
    exact hraw.field (hmap ▸ hfield)

/-! ## Expanded lists -/

theorem appendNew_append : ∀ (ys : List String) {xs zs : List String},
    appendNew (appendNew xs ys) zs = appendNew xs (ys ++ zs)
  | [], _, _ => rfl
  | y :: ys, xs, zs => by rw [List.cons_append, appendNew, appendNew, appendNew_append ys]

/-- Names are appended once, whether the list behind them repeats them or not. -/
theorem appendNew_assoc : ∀ {ys xs zs : List String},
    appendNew xs (appendNew zs ys) = appendNew (appendNew xs zs) ys
  | [], _, _ => rfl
  | y :: ys, xs, zs => by
    rw [appendNew, appendNew_assoc, appendNew]
    by_cases hy : y ∈ zs
    · rw [if_pos hy, if_pos (mem_appendNew.mpr (.inr hy))]
    · rw [if_neg hy, ← appendNew_append zs]
      rfl

theorem appendNew_eq : ∀ {ys xs : List String},
    appendNew xs ys = xs ++ (ys.filter fun y => y ∉ xs).eraseDups
  | [], xs => by simp [appendNew]
  | y :: ys, xs => by
    rw [appendNew, appendNew_eq]
    by_cases hy : y ∈ xs
    · simp [hy]
    · have hfilter : (ys.filter fun z => z ∉ xs ++ [y]) =
          (ys.filter fun z => z ∉ xs).filter fun z => !z == y := by
        rw [List.filter_filter]
        refine List.filter_congr fun z _ => ?_
        by_cases hz : z = y <;> simp [hz]
      rw [if_neg hy, hfilter, List.filter_cons, if_pos (by simpa using hy), List.eraseDups_cons,
        List.append_assoc]
      rfl

theorem appendNew_nil (ys : List String) : appendNew [] ys = ys.eraseDups := by
  rw [appendNew_eq]
  simp

theorem appendNew_eraseDups (xs ys : List String) :
    appendNew xs ys.eraseDups = appendNew xs ys := by
  rw [← appendNew_nil, appendNew_assoc]
  rfl

/-! ## References -/

namespace Fields
variable (f : Fields)

def isTarget (name : String) : Bool := (f.targets.lookup name).isSome

def isGroup (name : String) : Bool := (f.groups.lookup name).isSome

/-- A name of a target or of a group. -/
def Known (ref : String) : Prop := f.isTarget ref = true ∨ f.isGroup ref = true

/-- The group `g` refers to the group `ref`; a name of a target is none of a group. -/
def GroupRef (g ref : String) : Prop :=
  ∃ refs, f.groups.lookup g = some refs ∧ ref ∈ refs ∧ f.isTarget ref = false ∧
    f.isGroup ref = true

/-- `d` is among the targets the reference `ref` stands for. -/
inductive Expands : String → String → Prop
  | target {d : String} : f.isTarget d = true → Expands d d
  | group {ref inner d : String} {refs : List String} : f.isTarget ref = false →
      f.groups.lookup ref = some refs → inner ∈ refs → Expands inner d → Expands ref d

/-- `t` requires `d`, groups replaced by their targets. -/
def RequiresEdge (t d : String) : Prop :=
  ∃ raw ref, f.targets.lookup t = some raw ∧ ref ∈ raw.requires ∧ f.Expands ref d

/-- Some entry of a group or of `requires` names neither a target nor a group. -/
def UnknownRef : Prop :=
  (∃ g refs ref, f.groups.lookup g = some refs ∧ ref ∈ refs ∧ ¬ f.Known ref) ∨
    ∃ t raw ref, f.targets.lookup t = some raw ∧ ref ∈ raw.requires ∧ ¬ f.Known ref

def GroupCycle : Prop := ∃ g, Relation.TransGen f.GroupRef g g

def RequiresCycle : Prop := ∃ t, Relation.TransGen f.RequiresEdge t t

/-- The targets of a list of references, depth first, as often as they are met. -/
inductive Leaves : List String → List String → Prop
  | nil : Leaves [] []
  | target {ref : String} {refs leaves : List String} : f.isTarget ref = true →
      Leaves refs leaves → Leaves (ref :: refs) (ref :: leaves)
  | group {ref : String} {inner refs leaves leaves' : List String} : f.isTarget ref = false →
      f.groups.lookup ref = some inner → Leaves inner leaves → Leaves refs leaves' →
      Leaves (ref :: refs) (leaves ++ leaves')

variable {f}

/-- A list of references has one list of leaves. -/
theorem Leaves.unique {refs leaves : List String} (h : f.Leaves refs leaves) :
    ∀ {leaves' : List String}, f.Leaves refs leaves' → leaves' = leaves := by
  induction h with
  | nil =>
    intro leaves' h'
    cases h'
    rfl
  | target href _ ih =>
    intro leaves' h'
    cases h' with
    | target _ hrest => rw [ih hrest]
    | group hno _ _ _ => rw [href] at hno; cases hno
  | group href hinner _ _ ih ih' =>
    intro leaves' h'
    cases h' with
    | target htarget _ => rw [href] at htarget; cases htarget
    | group _ hinner' hleaves hrest =>
      obtain rfl := Option.some.inj (hinner.symm.trans hinner')
      rw [ih hleaves, ih' hrest]

theorem Leaves.known {refs leaves : List String} (h : f.Leaves refs leaves) :
    ∀ ref ∈ refs, f.Known ref := by
  induction h with
  | nil => simp
  | target href _ ih =>
    intro ref hmem
    rcases List.mem_cons.mp hmem with rfl | hmem
    · exact .inl href
    · exact ih ref hmem
  | group _ hinner _ _ _ ih =>
    intro ref hmem
    rcases List.mem_cons.mp hmem with rfl | hmem
    · exact .inr (by rw [isGroup, hinner]; rfl)
    · exact ih ref hmem

/-- The leaves are the targets the references stand for. -/
theorem Leaves.mem_iff {refs leaves : List String} (h : f.Leaves refs leaves) {d : String} :
    d ∈ leaves ↔ ∃ ref ∈ refs, f.Expands ref d := by
  induction h with
  | nil => simp
  | @target ref refs leaves href _ ih =>
    simp only [List.mem_cons, or_and_right, exists_or, exists_eq_left, ih]
    refine or_congr_left ⟨?_, fun hd => ?_⟩
    · rintro rfl
      exact .target href
    cases hd with
    | target _ => rfl
    | group hno _ _ _ => rw [href] at hno; cases hno
  | @group ref inner refs leaves leaves' href hinner _ _ ih ih' =>
    simp only [List.mem_append, List.mem_cons, or_and_right, exists_or, exists_eq_left, ih, ih']
    refine or_congr_left ⟨?_, fun hd => ?_⟩
    · rintro ⟨r, hr, hd⟩
      exact .group href hinner hr hd
    cases hd with
    | target htarget => rw [href] at htarget; cases htarget
    | group _ hinner' hr hd =>
      obtain rfl := Option.some.inj (hinner.symm.trans hinner')
      exact ⟨_, hr, hd⟩

/-- A group with leaves lies on no chain of groups without end. -/
theorem Leaves.acc {refs leaves : List String} (h : f.Leaves refs leaves) :
    ∀ ref ∈ refs, f.isTarget ref = false → Acc (fun r g => f.GroupRef g r) ref := by
  induction h with
  | nil => simp
  | target href _ ih =>
    intro ref hmem hno
    rcases List.mem_cons.mp hmem with rfl | hmem
    · rw [href] at hno
      cases hno
    · exact ih ref hmem hno
  | group href hinner _ _ ih ih' =>
    intro ref hmem hno
    rcases List.mem_cons.mp hmem with rfl | hmem
    · refine .intro _ fun r ⟨refs', hrefs', hr, hrno, _⟩ => ?_
      obtain rfl := Option.some.inj (hinner.symm.trans hrefs')
      exact ih r hr hrno
    · exact ih' ref hmem hno

theorem not_cycle_of_acc {g : String} (h : Acc (fun r g => f.GroupRef g r) g) :
    ¬ Relation.TransGen f.GroupRef g g := by
  induction h with
  | intro g _ ih =>
    intro hcycle
    -- the first step leads to a group on the same cycle
    obtain ⟨r, hstep, hback⟩ := Relation.TransGen.head'_iff.mp hcycle
    exact ih r hstep (Relation.TransGen.tail' hback hstep)

/-! ## Expansions -/

theorem expandRefs_leaves {nested : String → Result (List String)} {groupName : String}
    (hnested : ∀ ref names, nested ref = .ok names →
      ∃ inner leaves, f.groups.lookup ref = some inner ∧ f.Leaves inner leaves ∧
        names = leaves.eraseDups) :
    ∀ {refs expanded names : List String},
      expandRefs f.isTarget f.isGroup nested groupName refs expanded = .ok names →
        ∃ leaves, f.Leaves refs leaves ∧ names = appendNew expanded leaves
  | [], expanded, names, h => by
    cases h
    exact ⟨[], .nil, rfl⟩
  | ref :: refs, expanded, names, h => by
    rw [expandRefs] at h
    by_cases htarget : f.isTarget ref = true
    · rw [if_pos htarget] at h
      obtain ⟨leaves, hleaves, hnames⟩ := expandRefs_leaves hnested h
      exact ⟨ref :: leaves, .target htarget hleaves, hnames.trans (appendNew_append [ref])⟩
    · rw [if_neg htarget] at h
      split at h
      · cases hmore : nested ref with
        | error e => simp [hmore] at h
        | ok more =>
          rw [hmore] at h
          obtain ⟨inner, leaves, hinner, hleaves, rfl⟩ := hnested ref more hmore
          obtain ⟨rest, hrest, hnames⟩ := expandRefs_leaves hnested h
          rw [appendNew_eraseDups, appendNew_append] at hnames
          exact ⟨leaves ++ rest, .group (by simpa using htarget) hinner hleaves hrest, hnames⟩
      · cases h

/-- An expansion that returns has read the leaves of the group. -/
theorem expandGroupTargets_leaves : ∀ (fuel : Nat) (stack : List String) (groupName : String)
    (names : List String),
    expandGroupTargets f.groups f.isTarget fuel stack groupName = .ok names →
      ∃ refs leaves, f.groups.lookup groupName = some refs ∧ f.Leaves refs leaves ∧
        names = leaves.eraseDups
  | 0, _, _, _, h => by cases h
  | fuel + 1, stack, groupName, names, h => by
    rw [expandGroupTargets] at h
    split at h
    · cases h
    · cases hrefs : f.groups.lookup groupName with
      | none => simp [hrefs, fail] at h
      | some refs =>
        rw [hrefs] at h
        obtain ⟨leaves, hleaves, hnames⟩ :=
          expandRefs_leaves (expandGroupTargets_leaves fuel _) h
        exact ⟨refs, leaves, rfl, hleaves, hnames.trans (appendNew_nil leaves)⟩

/-- A list of references that fails has an unknown one, or one whose group fails. -/
theorem expandRefs_error {nested : String → Result (List String)} {groupName : String}
    {e : ManifestError} : ∀ {refs expanded : List String},
    expandRefs f.isTarget f.isGroup nested groupName refs expanded = .error e →
      (∃ ref ∈ refs, ¬ f.Known ref) ∨
        ∃ ref ∈ refs, f.isTarget ref = false ∧ f.isGroup ref = true ∧ nested ref = .error e
  | [], _, h => by cases h
  | ref :: refs, expanded, h => by
    have hlift : ((∃ r ∈ refs, ¬ f.Known r) ∨
        ∃ r ∈ refs, f.isTarget r = false ∧ f.isGroup r = true ∧ nested r = .error e) →
        (∃ r ∈ ref :: refs, ¬ f.Known r) ∨
          ∃ r ∈ ref :: refs, f.isTarget r = false ∧ f.isGroup r = true ∧ nested r = .error e := by
      rintro (⟨r, hr, hno⟩ | ⟨r, hr, hfails⟩)
      · exact .inl ⟨r, List.mem_cons_of_mem _ hr, hno⟩
      · exact .inr ⟨r, List.mem_cons_of_mem _ hr, hfails⟩
    rw [expandRefs] at h
    by_cases htarget : f.isTarget ref = true
    · rw [if_pos htarget] at h
      exact hlift (expandRefs_error h)
    · rw [if_neg htarget] at h
      by_cases hgroup : f.isGroup ref = true
      · rw [if_pos hgroup] at h
        cases hmore : nested ref with
        | error e' =>
          rw [hmore] at h
          cases h
          exact .inr ⟨ref, List.mem_cons_self, by simpa using htarget, hgroup, hmore⟩
        | ok more =>
          rw [hmore] at h
          exact hlift (expandRefs_error h)
      · exact .inl ⟨ref, List.mem_cons_self, fun hknown => hknown.elim htarget hgroup⟩

/-- An expansion that raises has found an unknown reference, or a group that leads back to
itself: every group of the stack leads to the one that is expanded. -/
theorem expandGroupTargets_error : ∀ (fuel : Nat) (stack : List String) (groupName : String)
    {e : ManifestError}, expandGroupTargets f.groups f.isTarget fuel stack groupName = .error e →
      e ≠ .limit → f.isGroup groupName = true →
      (∀ s ∈ stack, Relation.TransGen f.GroupRef s groupName) →
      f.UnknownRef ∨ f.GroupCycle
  | 0, _, _, _, h, he, _, _ => absurd (Except.error.inj h).symm he
  | fuel + 1, stack, groupName, e, h, he, hgroup, hstack => by
    rw [expandGroupTargets] at h
    split at h
    next hin => exact .inr ⟨groupName, hstack groupName hin⟩
    obtain ⟨refs, hrefs⟩ := Option.isSome_iff_exists.mp hgroup
    rw [hrefs] at h
    rcases expandRefs_error h with ⟨ref, href, hno⟩ | ⟨ref, href, htarget, hgroup', hnested⟩
    · exact .inl (.inl ⟨groupName, refs, ref, hrefs, href, hno⟩)
    · have hstep : f.GroupRef groupName ref := ⟨refs, hrefs, href, htarget, hgroup'⟩
      refine expandGroupTargets_error fuel _ ref hnested he hgroup' fun s hs => ?_
      rcases List.mem_append.mp hs with hs | hs
      · exact (hstack s hs).tail hstep
      · exact List.mem_singleton.mp hs ▸ .single hstep

/-- A group expands exactly when its references have leaves, from an empty stack. -/
theorem expandGroup_cases (groupName : String) (hgroup : f.isGroup groupName = true) :
    (∃ refs leaves, f.groups.lookup groupName = some refs ∧ f.Leaves refs leaves ∧
        expandGroupTargets f.groups f.isTarget (f.groups.length + 1) [] groupName =
          .ok leaves.eraseDups) ∨
      (f.UnknownRef ∨ f.GroupCycle) ∧
        ∃ text, expandGroupTargets f.groups f.isTarget (f.groups.length + 1) [] groupName =
          .error (.message text) := by
  cases h : expandGroupTargets f.groups f.isTarget (f.groups.length + 1) [] groupName with
  | ok names =>
    obtain ⟨refs, leaves, hrefs, hleaves, rfl⟩ := expandGroupTargets_leaves _ _ _ _ h
    exact .inl ⟨refs, leaves, hrefs, hleaves, rfl⟩
  | error e =>
    cases e with
    | message text =>
      exact .inr ⟨expandGroupTargets_error _ _ _ h (by simp) hgroup (by simp), text, rfl⟩
    | limit =>
      exact absurd h (expandGroupTargets_ne_limit _ [] groupName List.nodup_nil (by simp) (by simp))

/-! ## Requirements -/

theorem expandRequiresRef_cases (ref : String) :
    (∃ leaves, f.Leaves [ref] leaves ∧
        expandRequiresRef f.groups f.isTarget ref = .ok leaves.eraseDups) ∨
      (¬ f.Known ref ∨ f.UnknownRef ∨ f.GroupCycle) ∧
        ∃ text, expandRequiresRef f.groups f.isTarget ref = .error (.message text) := by
  unfold expandRequiresRef
  by_cases htarget : f.isTarget ref = true
  · rw [if_pos htarget]
    exact .inl ⟨[ref], .target htarget .nil, rfl⟩
  · rw [if_neg htarget]
    by_cases hgroup : f.isGroup ref = true
    · rw [isGroup] at hgroup
      rw [if_pos hgroup]
      rcases expandGroup_cases ref hgroup with ⟨refs, leaves, hrefs, hleaves, h⟩ | ⟨hbad, h⟩
      · refine .inl ⟨leaves ++ [], .group (by simpa using htarget) hrefs hleaves .nil, ?_⟩
        rw [List.append_nil]
        exact h
      · exact .inr ⟨.inr hbad, h⟩
    · rw [isGroup] at hgroup
      rw [if_neg hgroup]
      exact .inr ⟨.inl fun hknown => hknown.elim htarget hgroup, _, rfl⟩

/-- The requirements of a target expand to their leaves, unless a reference is bad or
leads to the target itself. -/
theorem expandRequires_cases (targetName : String) : ∀ (refs expanded : List String),
    (∃ leaves, f.Leaves refs leaves ∧ targetName ∉ leaves ∧
        expandRequires f.groups f.isTarget targetName refs expanded =
          .ok (appendNew expanded leaves)) ∨
      ((∃ ref ∈ refs, ¬ f.Known ref) ∨ f.UnknownRef ∨ f.GroupCycle ∨
          ∃ ref ∈ refs, f.Expands ref targetName) ∧
        ∃ text, expandRequires f.groups f.isTarget targetName refs expanded =
          .error (.message text)
  | [], expanded => .inl ⟨[], .nil, by simp, rfl⟩
  | ref :: refs, expanded => by
    rw [expandRequires]
    rcases expandRequiresRef_cases ref with ⟨leaves, hleaves, h⟩ | ⟨hbad, text, h⟩
    · rw [h]
      dsimp only
      have hmem : ∀ d, d ∈ leaves ↔ f.Expands ref d := fun d => by
        rw [hleaves.mem_iff]
        simp
      by_cases hself : targetName ∈ leaves
      · rw [if_pos (List.mem_eraseDups.mpr hself)]
        exact .inr ⟨.inr (.inr (.inr ⟨ref, List.mem_cons_self, (hmem _).mp hself⟩)), _, rfl⟩
      · rw [if_neg (fun hin => hself (List.mem_eraseDups.mp hin)), appendNew_eraseDups]
        rcases expandRequires_cases targetName refs (appendNew expanded leaves) with
          ⟨rest, hrest, hno, h'⟩ | ⟨hbad, h'⟩
        · refine .inl ⟨leaves ++ rest, ?_, by simp [hself, hno], ?_⟩
          · cases hleaves with
            | target htarget hnil =>
              cases hnil
              exact .target htarget hrest
            | group htarget hinner hleaves hnil =>
              cases hnil
              rw [List.append_nil]
              exact .group htarget hinner hleaves hrest
          · rw [h', appendNew_append]
        · refine .inr ⟨?_, h'⟩
          rcases hbad with ⟨r, hr, hno⟩ | hbad | hbad | ⟨r, hr, hself⟩
          · exact .inl ⟨r, List.mem_cons_of_mem _ hr, hno⟩
          · exact .inr (.inl hbad)
          · exact .inr (.inr (.inl hbad))
          · exact .inr (.inr (.inr ⟨r, List.mem_cons_of_mem _ hr, hself⟩))
    · rw [h]
      refine .inr ⟨?_, text, rfl⟩
      rcases hbad with hno | hbad | hbad
      · exact .inl ⟨ref, List.mem_cons_self, hno⟩
      · exact .inr (.inl hbad)
      · exact .inr (.inr (.inl hbad))

/-! ## The manifest -/

/-- Some reference is unknown, or leads back. -/
def IllFounded (f : Fields) : Prop := f.UnknownRef ∨ f.GroupCycle ∨ f.RequiresCycle

/-- The target with its requirements expanded to their leaves. -/
structure FlatTarget (f : Fields) (raw : RawTarget) (target : Target) : Prop where
  checked : target.toRawTarget = raw
  requires : ∃ leaves, f.Leaves raw.requires leaves ∧ target.requiresExpanded = leaves.eraseDups

/-- The expanded lists of a manifest are the flattenings of its references, each target at
its first occurrence. -/
structure Flattened (f : Fields) (m : Manifest) : Prop where
  groups : List.Forall₂ (fun group expanded => expanded.1 = group.1 ∧
    ∃ leaves, f.Leaves group.2 leaves ∧ expanded.2 = leaves.eraseDups) f.groups m.groupsExpanded
  targets : List.Forall₂ (fun raw target => target.1 = raw.1 ∧ f.FlatTarget raw.2 target.2)
    f.targets m.targets

/-- What is read from each element, or one that fails. -/
theorem collect_cases {α β : Type} {read : α → Result β} {R : α → β → Prop} {Bad : Prop} :
    ∀ {as : List α}, (∀ a ∈ as, (∃ b, read a = .ok b ∧ R a b) ∨
        Bad ∧ ∃ text, read a = .error (.message text)) →
      (∃ bs, collect read as = .ok bs ∧ List.Forall₂ R as bs) ∨
        Bad ∧ ∃ text, collect read as = .error (.message text)
  | [], _ => .inl ⟨[], rfl, .nil⟩
  | a :: as, h => by
    rw [collect]
    rcases h a List.mem_cons_self with ⟨b, hb, hR⟩ | ⟨hbad, text, htext⟩
    · rw [hb]
      rcases collect_cases fun a' ha' => h a' (List.mem_cons_of_mem _ ha') with
        ⟨bs, hbs, hall⟩ | ⟨hbad, text, htext⟩
      · refine .inl ⟨b :: bs, ?_, .cons hR hall⟩
        dsimp only [bind, Except.bind]
        rw [hbs]
        rfl
      · refine .inr ⟨hbad, text, ?_⟩
        dsimp only [bind, Except.bind]
        rw [htext]
    · rw [htext]
      exact .inr ⟨hbad, text, rfl⟩

theorem lookup_of_mem {β : Type} {name : String} {value : β} : ∀ {l : List (String × β)},
    (l.map (·.1)).Nodup → (name, value) ∈ l → l.lookup name = some value
  | [], _, h => by cases h
  | (key, v) :: l, hnodup, h => by
    rw [List.map_cons, List.nodup_cons] at hnodup
    rcases List.mem_cons.mp h with heq | hin
    · cases heq
      exact List.lookup_cons_self
    · have hkey : name ≠ key := by
        rintro rfl
        exact hnodup.1 (List.mem_map.mpr ⟨(name, value), hin, rfl⟩)
      rw [List.lookup_cons, beq_eq_false_iff_ne.mpr hkey]
      exact lookup_of_mem hnodup.2 hin

/-- Lists with related entries under the same names look up related values. -/
theorem lookup_forall₂ {β γ : Type} {R : β → γ → Prop} {as : List (String × β)}
    {bs : List (String × γ)} (h : List.Forall₂ (fun a b => b.1 = a.1 ∧ R a.2 b.2) as bs)
    (name : String) : Option.Rel R (as.lookup name) (bs.lookup name) := by
  induction h with
  | nil => exact .none
  | @cons a b as bs hab _ ih =>
    obtain ⟨key, v⟩ := a
    obtain ⟨key', v'⟩ := b
    obtain ⟨rfl, hR⟩ := hab
    by_cases hkey : name = key'
    · subst hkey
      rw [List.lookup_cons_self, List.lookup_cons_self]
      exact .some hR
    · rw [List.lookup_cons, List.lookup_cons, beq_eq_false_iff_ne.mpr hkey]
      exact ih

/-- A normalised target, or what is wrong with its requirements. -/
theorem normalizeTarget_cases {raw : String × RawTarget}
    (hraw : f.targets.lookup raw.1 = some raw.2) :
    (∃ target, normalizeTarget f.groups f.isTarget raw = .ok target ∧ target.1 = raw.1 ∧
        f.FlatTarget raw.2 target.2) ∨
      f.IllFounded ∧ ∃ text, normalizeTarget f.groups f.isTarget raw = .error (.message text) := by
  unfold normalizeTarget
  rcases expandRequires_cases raw.1 raw.2.requires [] with ⟨leaves, hleaves, -, h⟩ |
    ⟨hbad, text, h⟩
  · rw [h, appendNew_nil]
    exact .inl ⟨_, rfl, rfl, rfl, leaves, hleaves, rfl⟩
  · rw [h]
    refine .inr ⟨?_, text, rfl⟩
    rcases hbad with ⟨ref, href, hno⟩ | hbad | hbad | ⟨ref, href, hself⟩
    · exact .inl (.inr ⟨raw.1, raw.2, ref, hraw, href, hno⟩)
    · exact .inl hbad
    · exact .inr (.inl hbad)
    · exact .inr (.inr ⟨raw.1, .single ⟨raw.2, ref, hraw, href, hself⟩⟩)

section Targets
variable {targets : List (String × Target)}
  (htargets : List.Forall₂ (fun raw target => target.1 = raw.1 ∧ f.FlatTarget raw.2 target.2)
    f.targets targets)
include htargets

/-- The adjacency of the cycle search is the relation of requirements. -/
theorem edge_iff {t d : String} :
    HasSucc (adjacent (adjacencyOf targets)) t d ↔ f.RequiresEdge t d := by
  rw [edge_adjacencyOf]
  have hrel := lookup_forall₂ (R := f.FlatTarget) htargets t
  unfold RequiresEdge
  generalize f.targets.lookup t = raw at hrel
  generalize targets.lookup t = target at hrel
  cases hrel with
  | none => simp
  | @some raw target h =>
    obtain ⟨leaves, hleaves, hexpanded⟩ := h.requires
    simp only [Option.some.injEq, exists_eq_left', hexpanded, List.mem_eraseDups, hleaves.mem_iff]
    exact ⟨fun ⟨ref, href, hd⟩ => ⟨raw, ref, rfl, href, hd⟩,
      fun ⟨_, ref, heq, href, hd⟩ => ⟨ref, heq ▸ href, hd⟩⟩

/-- The search returns exactly when no target requires itself. -/
theorem detectRequiresCycle_cases :
    (∃ l, detectRequiresCycle (adjacencyOf targets) = .ok l ∧ ¬ f.RequiresCycle) ∨
      f.RequiresCycle ∧ ∃ text, detectRequiresCycle (adjacencyOf targets) =
        .error (.message text) := by
  have hedge : HasSucc (adjacent (adjacencyOf targets)) = f.RequiresEdge := by
    funext t d
    exact propext (edge_iff htargets)
  have hnames : ∀ name, (targets.lookup name).isSome = f.isTarget name := by
    intro name
    have hrel := lookup_forall₂ (R := f.FlatTarget) htargets name
    unfold isTarget
    generalize f.targets.lookup name = raw at hrel
    generalize targets.lookup name = target at hrel
    cases hrel <;> rfl
  have hclosed : ∀ t target, targets.lookup t = some target →
      ∀ d ∈ target.requiresExpanded, (targets.lookup d).isSome := by
    intro t target ht d hd
    obtain ⟨raw, ref, -, -, hexpands⟩ :=
      (edge_iff htargets).mp (edge_adjacencyOf.mpr ⟨target, ht, hd⟩)
    rw [hnames]
    induction hexpands with
    | target h => exact h
    | group _ _ _ _ ih => exact ih hd
  cases h : detectRequiresCycle (adjacencyOf targets) with
  | ok l =>
    refine .inl ⟨l, rfl, ?_⟩
    rintro ⟨t, hcycle⟩
    obtain ⟨htopo, -, hlisted⟩ := detectRequiresCycle_order h hclosed
    obtain ⟨d, ⟨raw, ref, ht, -⟩, -⟩ := Relation.TransGen.head'_iff.mp hcycle
    have hmem : t ∈ l := hlisted t (by rw [hnames, isTarget, ht]; rfl)
    have htopo' : Topo f.RequiresEdge l := fun pre n post hl d hd =>
      htopo pre n post hl d (edge_adjacencyOf.mp ((edge_iff htargets).mpr hd))
    exact topo_acyclic htopo' hmem hcycle
  | error e =>
    have hlimit : e ≠ .limit := by
      rintro rfl
      exact detectRequiresCycle_ne_limit hclosed h
    refine .inr ⟨?_, ?_⟩
    · obtain ⟨n, -, done, hn⟩ := visitAll_error h
      split at hn
      · cases hn
      · obtain ⟨x, hx⟩ :=
          depthFirst_cycle (fun n => ⟨_, rfl⟩) (fun _ _ => rfl) _ _ _ _ hn hlimit (by simp)
        exact ⟨x, hedge ▸ hx⟩
    · cases e with
      | message text => exact ⟨text, rfl⟩
      | limit => exact absurd rfl hlimit

end Targets

variable (f) in
/-- The expansion of one entry of the groups. -/
def expandGroup (group : String × List String) : Result (String × List String) := do
  let names ← expandGroupTargets f.groups f.isTarget (f.groups.length + 1) [] group.1
  return (group.1, names)

theorem normalize_eq :
    normalize f.version f.lockDefault f.timeoutDefault f.targets f.groups =
      collect f.expandGroup f.groups >>= fun groupsExpanded =>
        collect (normalizeTarget f.groups f.isTarget) f.targets >>= fun targets =>
          detectRequiresCycle (adjacencyOf targets) >>= fun _ =>
            .ok ⟨f.version, f.lockDefault, f.timeoutDefault, targets, f.groups, groupsExpanded⟩ :=
  rfl

theorem expandGroup_entry {group : String × List String}
    (hgroup : f.groups.lookup group.1 = some group.2) :
    (∃ expanded, f.expandGroup group = .ok expanded ∧ expanded.1 = group.1 ∧
        ∃ leaves, f.Leaves group.2 leaves ∧ expanded.2 = leaves.eraseDups) ∨
      f.IllFounded ∧ ∃ text, f.expandGroup group = .error (.message text) := by
  unfold expandGroup
  rcases expandGroup_cases group.1 (by rw [isGroup, hgroup]; rfl) with
    ⟨refs, leaves, hrefs, hleaves, h⟩ | ⟨hbad, text, h⟩
  · rw [h]
    obtain rfl := Option.some.inj (hgroup.symm.trans hrefs)
    exact .inl ⟨_, rfl, rfl, leaves, hleaves, rfl⟩
  · rw [h]
    exact .inr ⟨hbad.elim .inl fun hcycle => .inr (.inl hcycle), text, rfl⟩

/-- Groups and requirements with leaves have known references and no chain without end. -/
theorem known_of_leaves
    (hgroups : ∀ g refs, f.groups.lookup g = some refs → ∃ leaves, f.Leaves refs leaves)
    (htargets : ∀ t raw, f.targets.lookup t = some raw → ∃ leaves, f.Leaves raw.requires leaves) :
    ¬ f.UnknownRef ∧ ¬ f.GroupCycle := by
  constructor
  · rintro (⟨g, refs, ref, hg, href, hno⟩ | ⟨t, raw, ref, ht, href, hno⟩)
    · obtain ⟨leaves, hleaves⟩ := hgroups g refs hg
      exact hno (hleaves.known ref href)
    · obtain ⟨leaves, hleaves⟩ := htargets t raw ht
      exact hno (hleaves.known ref href)
  · rintro ⟨g, hcycle⟩
    refine not_cycle_of_acc (.intro g fun r ⟨refs, hrefs, hr, hno, _⟩ => ?_) hcycle
    obtain ⟨leaves, hleaves⟩ := hgroups g refs hrefs
    exact hleaves.acc r hr hno

theorem exists_of_forall₂ {β γ : Type} {R : β → γ → Prop} {as : List (String × β)}
    {bs : List (String × γ)} (h : List.Forall₂ (fun a b => b.1 = a.1 ∧ R a.2 b.2) as bs)
    {name : String} {a : β} (ha : as.lookup name = some a) : ∃ b, R a b := by
  have hrel := lookup_forall₂ h name
  rw [ha] at hrel
  generalize bs.lookup name = found at hrel
  cases hrel with
  | @some _ b hb => exact ⟨b, hb⟩

/-- What the checks of the references do with fields that have distinct names. -/
theorem normalize_cases (htargets : (f.targets.map (·.1)).Nodup)
    (hgroups : (f.groups.map (·.1)).Nodup) :
    (∃ m, normalize f.version f.lockDefault f.timeoutDefault f.targets f.groups = .ok m ∧
        f.Flattened m ∧ ¬ f.IllFounded) ∨
      f.IllFounded ∧ ∃ text, normalize f.version f.lockDefault f.timeoutDefault f.targets f.groups =
        .error (.message text) := by
  rw [normalize_eq]
  rcases collect_cases fun group hgroup => expandGroup_entry (lookup_of_mem hgroups hgroup) with
    ⟨groupsExpanded, h, hflat⟩ | ⟨hbad, text, h⟩
  · rw [h]
    rcases collect_cases fun raw hraw => normalizeTarget_cases (lookup_of_mem htargets hraw) with
      ⟨targets, h', hflat'⟩ | ⟨hbad, text, h'⟩
    · dsimp only [bind, Except.bind]
      rw [h']
      dsimp only
      rcases detectRequiresCycle_cases hflat' with ⟨l, hl, hacyclic⟩ | ⟨hbad, text, hl⟩
      · rw [hl]
        obtain ⟨hknown, hgroupsAcyclic⟩ := known_of_leaves
          (fun g refs hg => by
            obtain ⟨names, leaves, hleaves, _⟩ := exists_of_forall₂
              (R := fun refs names => ∃ leaves, f.Leaves refs leaves ∧ names = leaves.eraseDups)
              hflat hg
            exact ⟨leaves, hleaves⟩)
          (fun t raw ht => by
            obtain ⟨target, hflatTarget⟩ := exists_of_forall₂ hflat' ht
            obtain ⟨leaves, hleaves, _⟩ := hflatTarget.requires
            exact ⟨leaves, hleaves⟩)
        exact .inl ⟨_, rfl, ⟨hflat, hflat'⟩, fun hbad =>
          hbad.elim hknown fun hbad => hbad.elim hgroupsAcyclic hacyclic⟩
      · rw [hl]
        exact .inr ⟨.inr (.inr hbad), text, rfl⟩
    · dsimp only [bind, Except.bind]
      rw [h']
      exact .inr ⟨hbad, text, rfl⟩
  · rw [h]
    exact .inr ⟨hbad, text, rfl⟩

end Fields

/-- For every loaded manifest whose fields pass their checks: the validation ends, it raises
exactly when the references are ill-founded, and an accepted manifest has the flattenings. -/
theorem validation_exact {raw : Yaml} (hraw : Loaded raw) {f : Fields}
    (h : checkFields raw = .ok f) :
    validateAndNormalizeManifest raw ≠ .error .limit ∧
      ((∃ text, validateAndNormalizeManifest raw = .error (.message text)) ↔
        f.UnknownRef ∨ f.GroupCycle ∨ f.RequiresCycle) ∧
      ∀ m, validateAndNormalizeManifest raw = .ok m → f.Flattened m := by
  obtain ⟨htargets, hgroups⟩ := checkFields_distinct hraw h
  have heq : validateAndNormalizeManifest raw =
      normalize f.version f.lockDefault f.timeoutDefault f.targets f.groups := by
    rw [checkFields_bind, h]
    rfl
  rw [heq]
  refine ⟨normalize_ne_limit, ?_⟩
  rcases Fields.normalize_cases htargets hgroups with ⟨m, hm, hflat, hgood⟩ | ⟨hbad, text, hm⟩
  · rw [hm]
    refine ⟨iff_of_false (by simp) hgood, fun m' hm' => ?_⟩
    cases hm'
    exact hflat
  · rw [hm]
    exact ⟨iff_of_true ⟨text, rfl⟩ hbad, fun m' hm' => by cases hm'⟩

/-! Two groups that contain each other. -/

def loopingTarget : Yaml :=
  .map [(.str "description", .str "build"), (.str "command", .str "make")]

def loopingGroups : Yaml :=
  .map [(.str "all", .map [(.str "targets", .seq [.str "build", .str "rest"])]),
    (.str "rest", .map [(.str "targets", .seq [.str "all"])])]

def loopingManifest : Yaml :=
  .map [(.str "version", .int 1), (.str "targets", .map [(.str "build", loopingTarget)]),
    (.str "groups", loopingGroups)]

def loopingFields : Fields :=
  ⟨1, false, 300, [("build", ⟨"build", "make", [], [], false, 300⟩)],
    [("all", ["build", "rest"]), ("rest", ["all"])]⟩

theorem loopingManifest_loaded : Loaded loopingManifest := by
  have hstrs : ∀ names : List String, Loaded (.seq (names.map .str)) := fun names =>
    .seq fun item hitem => by
      obtain ⟨name, _, rfl⟩ := List.mem_map.mp hitem
      exact .str name
  have hgroup : ∀ names : List String, Loaded (.map [(.str "targets", .seq (names.map .str))]) :=
    fun names => .map (by simp) (by simpa using hstrs names)
  have htarget : Loaded loopingTarget := .map (by simp) (by simp [Loaded.str])
  have hgroups : Loaded loopingGroups := .map (by simp) (by
    simpa using ⟨hgroup ["build", "rest"], hgroup ["all"]⟩)
  exact .map (by simp) (by
    simpa using ⟨Loaded.int 1, Loaded.map (by simp) (by simpa using htarget), hgroups⟩)

theorem looping_refused :
    ∃ text, validateAndNormalizeManifest loopingManifest = .error (.message text) := by
  refine (validation_exact loopingManifest_loaded
    (by decide +kernel : checkFields loopingManifest = .ok loopingFields)).2.1.mpr ?_
  have hall : loopingFields.GroupRef "all" "rest" :=
    ⟨["build", "rest"], by decide +kernel, by simp, by decide +kernel, by decide +kernel⟩
  have hrest : loopingFields.GroupRef "rest" "all" :=
    ⟨["all"], by decide +kernel, by simp, by decide +kernel, by decide +kernel⟩
  exact .inr (.inl ⟨"all", .tail (.single hall) hrest⟩)

end Nightfall.Govctl
