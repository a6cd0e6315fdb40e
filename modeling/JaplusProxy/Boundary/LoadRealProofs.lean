import JaplusProxy.Boundary.LoadReal
import JaplusProxy.Hooks.LiveProofs

/-! What the wrapper adopts over any run of entries: the first library in the order of the
candidates that is a game and not the wrapper, once. -/
namespace JaplusProxy.Boundary
open CString X86Jump Machine

def Deed.Opens (h : Handle) : Deed → Bool
  | .opened _ other => other = h
  | _ => false

def Deed.isInstalled : Deed → Bool
  | .installed _ => true
  | _ => false

namespace Wrapper

section
variable (own : Addr) (l : Loader)

/-- Both entry points are there, and vmMain is not the wrapper's. -/
def IsGame (h : Handle) : Prop :=
  l.dlsym h (lit "vmMain") ≠ own ∧ l.dlsym h (lit "vmMain") ≠ 0 ∧ l.dlsym h (lit "dllEntry") ≠ 0

instance decidableIsGame (h : Handle) : Decidable (IsGame own l h) := instDecidableAnd

/-- The library at the path, where it is a game. -/
def game (path : Bytes) : Option Handle :=
  if path = [] then none else (l.dlopen path).filter (IsGame own l ·)

/-- What is done about a library that is not adopted. -/
def rejected (path : Bytes) : List Deed :=
  if path = [] then []
  else
    match l.dlopen path with
    | none => []
    | some h => [.opened path h, .closed h]

/-- With the library at `path` adopted. -/
def adopt (s : Wrapper) (path : Bytes) (h : Handle) : Wrapper :=
  { s.note (.opened path h) with
    real := some h, realVmMain := l.dlsym h (lit "vmMain"), realDllEntry := l.dlsym h (lit "dllEntry") }

def does (s : Wrapper) (deeds : List Deed) : Wrapper := { s with deeds := s.deeds ++ deeds }

/-- The places next to the wrapper. -/
def siblings : List Bytes :=
  match l.dladdr.bind fun self => directory self.bytes with
  | none => []
  | some dir =>
    if 1024 ≤ dir.length then []
    else [candidate dir (lit "japlus_real_i386.so"), candidate dir (lit "jampgamei386.so")]

/-- The paths that LoadReal tries, in their order. -/
def candidates : List Bytes :=
  [(l.env.map CStr.bytes).getD []] ++ siblings l ++ [realLib] ++ [realLibFallback]

def scan (s : Wrapper) : List Bytes → Wrapper
  | [] => s
  | path :: rest =>
    let (s, adopted) := s.tryAdoptReal own l path
    if adopted then s else s.scan rest

/-- What InstallPatches meets for a library. -/
def meets (h : Handle) : Hooks.Process := { l.process with realHandle := h, vmMain := l.dlsym h (lit "vmMain") }

/-- What LoadReal does when its candidates are tried. -/
def settle (s : Wrapper) : Wrapper :=
  match s.real with
  | none => s.note .unfound
  | some h =>
    if s.patchesDone then s
    else { s with patchesDone := true, hooks := (meets l h).installPatches Hooks.hde32 s.hooks }.note (.installed h)

end

section
variable {own : Addr} {l : Loader} {s : Wrapper}

theorem does_does (s : Wrapper) (first second : List Deed) : (s.does first).does second = s.does (first ++ second) := by
  simp only [does, List.append_assoc]

/-- One candidate. -/
theorem tryAdoptReal_spec (s : Wrapper) (path : Bytes) : s.tryAdoptReal own l path =
    match game own l path with
    | none => (s.does (rejected l path), false)
    | some h => (s.adopt l path h, true) := by
  rw [tryAdoptReal, game, rejected]
  by_cases empty : path = []
  · simp [empty, does]
  · rw [if_neg empty, if_neg empty, if_neg empty]
    cases l.dlopen path with
    | none => simp [does]
    | some h =>
      rw [Option.filter_some]
      dsimp only
      by_cases accepted : IsGame own l h
      · obtain ⟨other, vm, de⟩ := accepted
        rw [if_neg other, if_neg (not_or.mpr ⟨vm, de⟩), decide_eq_true ⟨other, vm, de⟩]
        rfl
      · rw [decide_eq_false accepted]
        by_cases self : l.dlsym h (lit "vmMain") = own
        · rw [if_pos self]
          simp [does, note]
        · have missing : l.dlsym h (lit "vmMain") = 0 ∨ l.dlsym h (lit "dllEntry") = 0 := by
            by_contra both
            obtain ⟨vm, de⟩ := not_or.mp both
            exact accepted ⟨self, vm, de⟩
          rw [if_neg self, if_pos missing]
          simp [does, note]

theorem scan_cons (s : Wrapper) (path : Bytes) (rest : List Bytes) : s.scan own l (path :: rest) =
    match game own l path with
    | none => (s.does (rejected l path)).scan own l rest
    | some h => s.adopt l path h := by
  rw [scan, tryAdoptReal_spec]
  cases game own l path <;> rfl

theorem scan_none (none_ : ∀ path ∈ paths, game own l path = none) :
    s.scan own l paths = s.does (paths.flatMap (rejected l)) := by
  induction paths generalizing s with
  | nil => simp [scan, does]
  | cons path rest ih =>
    rw [scan_cons, none_ path (.head _)]
    dsimp only
    rw [ih fun other member => none_ other (.tail _ member), does_does, List.flatMap_cons]

theorem scan_some (none_ : ∀ other ∈ before, game own l other = none) (found : game own l path = some h) :
    s.scan own l (before ++ path :: after) = (s.does (before.flatMap (rejected l))).adopt l path h := by
  induction before generalizing s with
  | nil =>
    rw [List.nil_append, scan_cons, found]
    simp [does]
  | cons other rest ih =>
    rw [List.cons_append, scan_cons, none_ other (.head _)]
    dsimp only
    rw [ih fun more member => none_ more (.tail _ member), does_does, List.flatMap_cons]

/-- The search ends with the first part, or goes on with the second. -/
theorem scan_append (empty : s.real = none) : s.scan own l (first ++ second) =
    if (s.scan own l first).real.isNone then (s.scan own l first).scan own l second else s.scan own l first := by
  induction first generalizing s with
  | nil => simp [scan, empty]
  | cons path rest ih =>
    simp only [List.cons_append, scan_cons]
    cases game own l path with
    | none => exact ih empty
    | some h => rfl

theorem scan_single (s : Wrapper) (path : Bytes) : (s.tryAdoptReal own l path).1 = s.scan own l [path] := by
  rw [scan_cons, tryAdoptReal_spec]
  cases game own l path <;> rfl

theorem nextToSelf_scan (s : Wrapper) : s.tryAdoptRealNextToSelf own l = s.scan own l (siblings l) := by
  rw [tryAdoptRealNextToSelf, siblings]
  cases l.dladdr.bind fun self => directory self.bytes with
  | none => rfl
  | some dir =>
    dsimp only
    split
    · rfl
    · rw [scan_cons, tryAdoptReal_spec]
      cases game own l (candidate dir (lit "japlus_real_i386.so")) with
      | none => exact scan_single _ _
      | some h => rfl

/-- An empty path is never opened. -/
theorem env_scan (s : Wrapper) (env : Bytes) :
    (if env ≠ [] then (s.tryAdoptReal own l env).1 else s) = s.scan own l [env] := by
  by_cases empty : env = []
  · simp [empty, scan, tryAdoptReal]
  · rw [if_pos empty, scan_single]

/-- LoadReal goes through the candidates. -/
theorem loadReal_scan (empty : s.real = none) : s.loadReal own l = (s.scan own l (candidates l)).settle l := by
  rw [loadReal, empty, if_neg (by simp)]
  dsimp only
  rw [env_scan, nextToSelf_scan, ← scan_append empty, scan_single, ← scan_append empty, scan_single,
    ← scan_append empty]
  rfl

/-- The first of the candidates that is a game. -/
structure First (own : Addr) (l : Loader) (before : List Bytes) (path : Bytes) (h : Handle) : Prop where
  place : ∃ after, candidates l = before ++ path :: after
  earlier : ∀ other ∈ before, game own l other = none
  found : game own l path = some h

theorem first_or_none (own : Addr) (l : Loader) :
    (∀ path ∈ candidates l, game own l path = none) ∨ ∃ before path h, First own l before path h := by
  cases found : (candidates l).find? fun path => (game own l path).isSome with
  | none => exact .inl fun path member => by simpa using List.find?_eq_none.mp found path member
  | some path =>
    obtain ⟨some_, before, after, split, earlier⟩ := List.find?_eq_some_iff_append.mp found
    obtain ⟨h, here⟩ := Option.isSome_iff_exists.mp some_
    exact .inr ⟨before, path, h, ⟨after, split⟩, fun other member => by simpa using earlier other member, here⟩

theorem loadReal_unfound (empty : s.real = none) (none_ : ∀ path ∈ candidates l, game own l path = none) :
    s.loadReal own l = (s.does ((candidates l).flatMap (rejected l))).note .unfound := by
  rw [loadReal_scan empty, scan_none none_, settle, show (s.does _).real = none from empty]

theorem loadReal_first (empty : s.real = none) (fresh : s.patchesDone = false) (first : First own l before path h) :
    s.loadReal own l =
      { (s.does (before.flatMap (rejected l))).adopt l path h with
        patchesDone := true, hooks := (meets l h).installPatches Hooks.hde32 s.hooks }.note (.installed h) := by
  obtain ⟨after, split⟩ := first.place
  have unset : ¬ s.patchesDone = true := by
    rw [fresh]
    exact Bool.false_ne_true
  rw [loadReal_scan empty, split, scan_some first.earlier first.found, settle]
  exact if_neg unset

theorem loadReal_adopted (adopted : s.real = some h) : s.loadReal own l = s := by
  rw [loadReal, adopted]
  rfl

/-! ### Runs -/

/-- Opened and closed again, and what is said of it. -/
inductive Searching : List Deed → Prop where
  | nil : Searching []
  | reject (ds : List Deed) : Searching ds → Searching (ds ++ [.opened path h, .closed h])
  | tell (ds : List Deed) : deed ∈ [Deed.unfound, .noDllEntry, .noVmMain] → Searching ds → Searching (ds ++ [deed])
  | answer (ds : List Deed) : Searching ds → Searching (ds ++ [.answered call r])

theorem Searching.append {ds : List Deed} (first : Searching ds) (second : Searching more) :
    Searching (ds ++ more) := by
  induction second with
  | nil => rwa [List.append_nil]
  | reject es _ ih =>
    rw [← List.append_assoc]
    exact .reject _ ih
  | tell es said _ ih =>
    rw [← List.append_assoc]
    exact .tell _ said ih
  | answer es _ ih =>
    rw [← List.append_assoc]
    exact .answer _ ih

theorem searching_rejected (l : Loader) (paths : List Bytes) : Searching (paths.flatMap (rejected l)) := by
  induction paths with
  | nil => exact .nil
  | cons path rest ih =>
    refine Searching.append ?_ ih
    rw [rejected]
    split
    · exact .nil
    · split
      · exact .nil
      · exact .reject [] .nil

/-- What is done with a library once it is adopted. -/
def Serves (vm de : Addr) : Deed → Prop
  | .initialised f => f = de
  | .entered f _ => f = vm
  | .answered _ _ => True
  | _ => False

structure Unadopted (hooks : Hooks.State) (s : Wrapper) : Prop where
  real : s.real = none
  vm : s.realVmMain = 0
  de : s.realDllEntry = 0
  fresh : s.patchesDone = false
  unhooked : s.hooks = hooks
  deeds : Searching s.deeds

structure Adopted (own : Addr) (hooks : Hooks.State) (s : Wrapper) (l : Loader) (h : Handle) : Prop where
  isGame : IsGame own l h
  real : s.real = some h
  vm : s.realVmMain = l.dlsym h (lit "vmMain")
  de : s.realDllEntry = l.dlsym h (lit "dllEntry")
  hooked : s.hooks = (meets l h).installPatches Hooks.hde32 hooks
  deeds : ∃ before path after, s.deeds = before ++ [.opened path h, .installed h] ++ after ∧ Searching before ∧
    ∀ deed ∈ after, Serves s.realVmMain s.realDllEntry deed

/-- Nothing yet, or one library since some entry. -/
def History (own : Addr) (hooks : Hooks.State) (s : Wrapper) : Prop :=
  Unadopted hooks s ∨ ∃ l h, Adopted own hooks s l h

theorem isGame_of_game (found : game own l path = some h) : IsGame own l h := by
  rw [game] at found
  split at found
  · cases found
  · simpa using (Option.filter_eq_some_iff.mp found).2

variable {hooks : Hooks.State}

theorem loadReal_history (history : History own hooks s) (l : Loader) : History own hooks (s.loadReal own l) := by
  rcases history with unadopted | ⟨old, h, adopted⟩
  · rcases first_or_none own l with none_ | ⟨before, path, h, first⟩
    · rw [loadReal_unfound unadopted.real none_]
      exact .inl { unadopted with
        deeds := .tell _ (by simp) (unadopted.deeds.append (searching_rejected l _)) }
    · rw [loadReal_first unadopted.real unadopted.fresh first]
      refine .inr ⟨l, h, isGame_of_game first.found, rfl, rfl, rfl, ?_, ?_⟩
      · rw [← unadopted.unhooked]
        rfl
      · refine ⟨s.deeds ++ before.flatMap (rejected l), path, [], ?_, unadopted.deeds.append (searching_rejected l _),
          by simp⟩
        simp [adopt, note, does]
  · rw [loadReal_adopted adopted.real]
    exact .inr ⟨old, h, adopted⟩

/-- Any deed of an adopted library. -/
theorem Adopted.serve (adopted : Adopted own hooks s l h) (serves : Serves s.realVmMain s.realDllEntry deed) :
    Adopted own hooks (s.note deed) l h := by
  obtain ⟨before, path, after, split, searching, serving⟩ := adopted.deeds
  refine { adopted with deeds := ⟨before, path, after ++ [deed], ?_, searching, ?_⟩ }
  · rw [note, split]
    exact List.append_assoc ..
  · intro other member
    rcases List.mem_append.mp member with earlier | last
    · exact serving other earlier
    · rwa [List.mem_singleton.mp last]

/-- Without a game, vmMain says so. -/
theorem enterVmMain_unadopted (e : Engine) (call : GameCall) (missing : (s.loadReal own l).realVmMain = 0) :
    s.enterVmMain own l e call =
      some (((s.loadReal own l).note .noVmMain).note (.answered call (-1)), e) := by
  have unset : decide ((s.loadReal own l).realVmMain ≠ 0) = false := decide_eq_false (not_not.mpr missing)
  rw [enterVmMain, if_pos missing]
  change (vmMain (decide ((s.loadReal own l).realVmMain ≠ 0)) e call).map _ = _
  rw [unset]
  rfl

theorem enterVmMain_adopted (e : Engine) (call : GameCall) (set : (s.loadReal own l).realVmMain ≠ 0) :
    s.enterVmMain own l e call = (vmMain true e call).map fun passage =>
      ((s.loadReal own l).note
        (passage.answer.elim (.entered (s.loadReal own l).realVmMain call) (.answered call)), passage.engine) := by
  rw [enterVmMain, if_neg set, decide_eq_true set]
  cases vmMain true e call with
  | none => rfl
  | some passage => cases found : passage.answer <;> simp only [Option.map_some, found, Option.elim]

theorem step_history (history : History own hooks s) (taken : step own s entry = some t) : History own hooks t := by
  cases entry with
  | dllEntry l engine =>
    cases taken
    have loaded : History own hooks ({ s with engine := engine }.loadReal own l) := by
      refine loadReal_history (history.imp ?_ ?_) l
      · exact fun unadopted => { unadopted with }
      · exact fun ⟨old, h, adopted⟩ => ⟨old, h, { adopted with }⟩
    rw [dllEntry]
    rcases loaded with unadopted | ⟨old, h, adopted⟩
    · rw [if_neg (not_not.mpr unadopted.de)]
      exact .inl { unadopted with deeds := .tell _ (by simp) unadopted.deeds }
    · have set : ({ s with engine := engine }.loadReal own l).realDllEntry ≠ 0 := adopted.de ▸ adopted.isGame.2.2
      rw [if_pos set]
      exact .inr ⟨old, h, adopted.serve rfl⟩
  | vmMain l e call =>
    have loaded := loadReal_history history l
    rw [step] at taken
    rcases loaded with unadopted | ⟨old, h, adopted⟩
    · rw [enterVmMain_unadopted e call unadopted.vm] at taken
      cases taken
      exact .inl { unadopted with deeds := .answer _ (.tell _ (by simp) unadopted.deeds) }
    · rw [enterVmMain_adopted e call (adopted.vm ▸ adopted.isGame.2.1), Option.map_map] at taken
      obtain ⟨passage, _, rfl⟩ := Option.map_eq_some_iff.mp taken
      refine .inr ⟨old, h, adopted.serve ?_⟩
      cases passage.answer with
      | none => exact rfl
      | some r => exact trivial

theorem loadReal_real (unadopted : Unadopted hooks s) :
    (s.loadReal own l).real = (candidates l).findSome? (game own l) := by
  rcases first_or_none own l with none_ | ⟨before, path, h, first⟩
  · rw [loadReal_unfound unadopted.real none_, List.findSome?_eq_none_iff.mpr none_]
    exact unadopted.real
  · obtain ⟨after, split⟩ := first.place
    rw [loadReal_first unadopted.real unadopted.fresh first, split, List.findSome?_append,
      List.findSome?_eq_none_iff.mpr first.earlier, Option.none_or, List.findSome?_cons, first.found]
    rfl

/-- The loader has a game at one of the candidates. -/
def finds (own : Addr) (l : Loader) : Bool := ((candidates l).findSome? (game own l)).isSome

/-- A game is there once it was found. -/
theorem loadReal_there (history : History own hooks s) (l : Loader) :
    (s.loadReal own l).real.isSome = (s.real.isSome || finds own l) := by
  rcases history with unadopted | ⟨_, h, adopted⟩
  · rw [loadReal_real unadopted, unadopted.real]
    rfl
  · rw [loadReal_adopted adopted.real, adopted.real]
    rfl

/-! ### What a run leaves -/

/-- At any point of any run. -/
structure Consistent (own : Addr) (hooks : Hooks.State) (s : Wrapper) : Prop where
  /-- The library and its entry points are set together, and never to the wrapper's. -/
  whole : s.real = none ∧ s.realVmMain = 0 ∧ s.realDllEntry = 0 ∨
    s.real ≠ none ∧ s.realVmMain ≠ 0 ∧ s.realVmMain ≠ own ∧ s.realDllEntry ≠ 0
  /-- What was opened is closed again, but for the adopted library. -/
  released : ∀ h, s.deeds.countP (Deed.Opens h) = s.deeds.count (.closed h) + if s.real = some h then 1 else 0
  /-- InstallPatches runs once, on the adopted library. -/
  once : s.deeds.filter Deed.isInstalled = s.real.toList.map .installed
  hooked : s.real = none ∧ s.hooks = hooks ∨
    ∃ process : Hooks.Process, s.real = some process.realHandle ∧ process.vmMain = s.realVmMain ∧
      s.hooks = process.installPatches Hooks.hde32 hooks
  /-- The engine's calls reach the adopted library only. -/
  entered : ∀ f call, .entered f call ∈ s.deeds → f = s.realVmMain ∧ s.real ≠ none
  initialised : ∀ f, .initialised f ∈ s.deeds → f = s.realDllEntry ∧ s.real ≠ none

theorem Searching.released {ds : List Deed} (searching : Searching ds) (h : Handle) :
    ds.countP (Deed.Opens h) = ds.count (.closed h) := by
  induction searching with
  | nil => rfl
  | @reject path k ds _ ih =>
    rw [List.countP_append, List.count_append, ih]
    by_cases same : k = h <;> simp [Deed.Opens, same]
  | tell ds said _ ih =>
    rw [List.countP_append, List.count_append, ih]
    simp only [List.mem_cons, List.not_mem_nil, or_false] at said
    rcases said with rfl | rfl | rfl <;> simp [Deed.Opens]
  | answer ds _ ih =>
    rw [List.countP_append, List.count_append, ih]
    simp [Deed.Opens]

/-- Nothing is called or hooked on the way. -/
theorem Searching.idle {ds : List Deed} (searching : Searching ds) (member : deed ∈ ds) :
    deed.isInstalled = false ∧ (∀ f call, deed ≠ .entered f call) ∧ ∀ f, deed ≠ .initialised f := by
  induction searching with
  | nil => cases member
  | reject ds _ ih =>
    rcases List.mem_append.mp member with earlier | last
    · exact ih earlier
    · simp only [List.mem_cons, List.not_mem_nil, or_false] at last
      rcases last with rfl | rfl <;> simp [Deed.isInstalled]
  | tell ds said _ ih =>
    rcases List.mem_append.mp member with earlier | last
    · exact ih earlier
    · rw [List.mem_singleton.mp last]
      simp only [List.mem_cons, List.not_mem_nil, or_false] at said
      rcases said with rfl | rfl | rfl <;> simp [Deed.isInstalled]
  | answer ds _ ih =>
    rcases List.mem_append.mp member with earlier | last
    · exact ih earlier
    · rw [List.mem_singleton.mp last]
      simp [Deed.isInstalled]

theorem serving_idle (serves : Serves vm de deed) : deed.isInstalled = false ∧
    (∀ h, Deed.Opens h deed = false ∧ deed ≠ .closed h) := by
  cases deed <;> simp_all [Serves, Deed.isInstalled, Deed.Opens]

theorem Unadopted.consistent (unadopted : Unadopted hooks s) : Consistent own hooks s where
  whole := .inl ⟨unadopted.real, unadopted.vm, unadopted.de⟩
  released := fun h => by simp [unadopted.deeds.released h, unadopted.real]
  once := by
    rw [unadopted.real, List.filter_eq_nil_iff.mpr fun deed member => by simp [(unadopted.deeds.idle member).1]]
    rfl
  hooked := .inl ⟨unadopted.real, unadopted.unhooked⟩
  entered := fun f call member => absurd rfl ((unadopted.deeds.idle member).2.1 f call)
  initialised := fun f member => absurd rfl ((unadopted.deeds.idle member).2.2 f)

theorem Adopted.consistent (adopted : Adopted own hooks s l h) : Consistent own hooks s := by
  obtain ⟨before, path, after, split, searching, serving⟩ := adopted.deeds
  have some_ : s.real ≠ none := by simp [adopted.real]
  constructor
  · exact .inr ⟨some_, adopted.vm ▸ adopted.isGame.2.1, adopted.vm ▸ adopted.isGame.1, adopted.de ▸ adopted.isGame.2.2⟩
  · intro k
    have quiet : after.countP (Deed.Opens k) = 0 := List.countP_eq_zero.mpr fun deed member => by
      simp [((serving_idle (serving deed member)).2 k).1]
    have kept : after.count (.closed k) = 0 := List.count_eq_zero.mpr fun member =>
      ((serving_idle (serving _ member)).2 k).2 rfl
    rw [split, adopted.real]
    simp only [List.countP_append, List.count_append, searching.released, quiet, kept]
    by_cases same : h = k <;> simp [Deed.Opens, same]
  · have early : before.filter Deed.isInstalled = [] :=
      List.filter_eq_nil_iff.mpr fun deed member => by simp [(searching.idle member).1]
    have late : after.filter Deed.isInstalled = [] :=
      List.filter_eq_nil_iff.mpr fun deed member => by simp [(serving_idle (serving deed member)).1]
    rw [split, adopted.real, List.filter_append, List.filter_append, early, late]
    rfl
  · exact .inr ⟨meets l h, adopted.real, adopted.vm.symm, adopted.hooked⟩
  · intro f call member
    refine ⟨?_, some_⟩
    rw [split] at member
    simp only [List.mem_append, List.mem_cons, List.not_mem_nil, or_false, reduceCtorEq, or_self] at member
    rcases member with early | late
    · exact absurd rfl ((searching.idle early).2.1 f call)
    · exact serving _ late
  · intro f member
    refine ⟨?_, some_⟩
    rw [split] at member
    simp only [List.mem_append, List.mem_cons, List.not_mem_nil, or_false, reduceCtorEq, or_self] at member
    rcases member with early | late
    · exact absurd rfl ((searching.idle early).2.2 f)
    · exact serving _ late

theorem run_history (reaches : Reachable (step own) (boot hooks) s) : History own hooks s :=
  reaches.invariant (fun _ _ _ history _ taken => step_history history taken)
    (.inl ⟨rfl, rfl, rfl, rfl, rfl, .nil⟩)

/-- Over any entries, whatever the loader answers to each. -/
theorem wrapper_consistent (reaches : Reachable (step own) (boot hooks) s) : Consistent own hooks s := by
  rcases run_history reaches with unadopted | ⟨l, h, adopted⟩
  · exact unadopted.consistent
  · exact adopted.consistent

/-- The game lies in the working directory, under its own name. -/
def nearby : Loader where
  dlopen := fun path => if path = realLibFallback then some 0xF7000000 else none
  dlsym := fun _ name => if name = lit "vmMain" then 0xF7001000 else 0xF7002000
  dladdr := none
  env := none
  process := Hooks.Process.loaded

theorem wrapper_consistent_nearby : Consistent 0xF7801230 Hooks.Process.rconOnly
    ((boot Hooks.Process.rconOnly).dllEntry 0xF7801230 nearby 0x08050000) :=
  wrapper_consistent (.next (a := .dllEntry nearby 0x08050000) trivial rfl .refl)

end

end Wrapper

/-! ### Sessions -/

/-- What the engine gets for an entry, and whether from the wrapper itself. -/
def Deed.answer : Deed → Option (GameCall × Option Int)
  | .entered _ call => some (call, none)
  | .answered call r => some (call, some r)
  | _ => none

/-- The same of a session. -/
def Session.answers (s : Session) : List Event → List (GameCall × Option Int)
  | [] => []
  | event :: events =>
    (match event with
      | .enter found call => ((vmMain (s.real || found) s.engine call).map fun passage => (call, passage.answer)).toList
      | _ => []) ++
      (s.step event).elim [] fun t => t.answers events

/-! ### The session of a run -/

/-- An entry whose loader has a game. -/
def Happening.finds (own : Addr) : Happening → Bool
  | .dllEntry l _ | .vmMain l _ => Wrapper.finds own l
  | _ => false

/-- What a happening is in a session where a game is `there` or not; dllEntry is no part of it. -/
def Happening.event (there : Bool) : Happening → Option Event
  | .dllEntry _ _ => none
  | .vmMain _ call => some (.enter there call)
  | .userinfo client ui => some (.userinfo client ui)
  | .turn world => some (.turn world)
  | .syscall call => some (.syscall call)

/-- A game is there from the first entry on that finds one. -/
def Happening.events (own : Addr) : Bool → List Happening → List Event
  | _, [] => []
  | there, h :: rest => (h.event (there || h.finds own)).toList ++ events own (there || h.finds own) rest

namespace World
open Wrapper

section
variable {own : Addr} {l : Loader} {s : Wrapper} {hooks : Hooks.State} {w w' : World} {t : Session} {there : Bool}

theorem note_answers (s : Wrapper) (deed : Deed) :
    (s.note deed).deeds.filterMap Deed.answer = s.deeds.filterMap Deed.answer ++ deed.answer.toList := by
  rw [note, List.filterMap_append]
  cases deed <;> rfl

theorem rejected_answers (l : Loader) (paths : List Bytes) :
    (paths.flatMap (rejected l)).filterMap Deed.answer = [] := by
  induction paths with
  | nil => rfl
  | cons path rest ih =>
    rw [List.flatMap_cons, List.filterMap_append, ih, List.append_nil, rejected]
    split
    · rfl
    · split <;> rfl

/-- Looking for the game answers nothing. -/
theorem loadReal_answers (history : History own hooks s) :
    (s.loadReal own l).deeds.filterMap Deed.answer = s.deeds.filterMap Deed.answer := by
  rcases history with unadopted | ⟨_, h, adopted⟩
  · rcases first_or_none own l with none_ | ⟨before, path, h, first⟩
    · rw [loadReal_unfound unadopted.real none_]
      simp [does, note, rejected_answers, Deed.answer]
    · rw [loadReal_first unadopted.real unadopted.fresh first]
      simp [does, note, adopt, rejected_answers, Deed.answer]
  · rw [loadReal_adopted adopted.real]

theorem History.set_iff (history : History own hooks s) : s.realVmMain ≠ 0 ↔ s.real.isSome := by
  rcases history with unadopted | ⟨_, h, adopted⟩
  · simp [unadopted.vm, unadopted.real]
  · exact iff_of_true (adopted.vm ▸ adopted.isGame.2.1) (adopted.real ▸ rfl)

/-- The session that a world is in. -/
structure Abstracts (own : Addr) (hooks : Hooks.State) (there : Bool) (w : World) (t : Session) : Prop where
  engine : t.engine = w.engine
  real : t.real → there
  adopted : w.wrapper.real.isSome = there
  history : History own hooks w.wrapper

/-- One happening is one event, or none. -/
structure Refines (own : Addr) (hooks : Hooks.State) (there : Bool) (w w' : World) (t t' : Session) (events : List Event) :
    Prop where
  ran : t.run events = some t'
  abstracts : Abstracts own hooks there w' t'
  answers : w'.wrapper.deeds.filterMap Deed.answer = w.wrapper.deeds.filterMap Deed.answer ++ t.answers events

/-- An event without an entry. -/
theorem quiet_refines (abstracts : Abstracts own hooks there w t) (event : Event)
    (quiet : ∀ found call, event ≠ .enter found call) (moved : t.step event = some { t with engine := e }) :
    Refines own hooks there w { w with engine := e } t { t with engine := e } [event] where
  ran := by
    rw [Session.run, moved]
    rfl
  abstracts := ⟨rfl, abstracts.real, abstracts.adopted, abstracts.history⟩
  answers := by
    have silent : t.answers [event] = [] := by
      cases event with
      | enter found call => exact absurd rfl (quiet found call)
      | userinfo | turn | syscall => cases moved; rfl
    rw [silent, List.append_nil]

theorem dllEntry_refines (abstracts : Abstracts own hooks there w t) (l : Loader) (engine : Addr) :
    Refines own hooks (there || finds own l) w { w with wrapper := w.wrapper.dllEntry own l engine } t t [] := by
  have history : History own hooks { w.wrapper with engine := engine } := abstracts.history.imp
    (fun unadopted => { unadopted with }) fun ⟨old, h, adopted⟩ => ⟨old, h, { adopted with }⟩
  have stepped : Wrapper.step own w.wrapper (.dllEntry l engine) = some (w.wrapper.dllEntry own l engine) := rfl
  have later := step_history abstracts.history stepped
  have same := loadReal_answers (l := l) history
  have adopted := loadReal_there history l
  rw [show ({ w.wrapper with engine := engine } : Wrapper).real = w.wrapper.real from rfl, abstracts.adopted] at adopted
  refine ⟨rfl, ⟨abstracts.engine, fun on => by simp [abstracts.real on], ?_, later⟩, ?_⟩
  · rw [dllEntry]
    split <;> exact adopted
  · rw [dllEntry]
    split <;> rw [note_answers, same] <;> rfl

theorem enter_refines (abstracts : Abstracts own hooks there w t)
    (taken : w.wrapper.enterVmMain own l w.engine call = some (s, e)) :
    ∃ t', Refines own hooks (there || finds own l) w ⟨s, e⟩ t t' [.enter (there || finds own l) call] := by
  have stepped : Wrapper.step own w.wrapper (.vmMain l w.engine call) = some s := by
    rw [Wrapper.step, taken]
    rfl
  have later := step_history abstracts.history stepped
  have same := loadReal_answers (l := l) abstracts.history
  have set := History.set_iff (loadReal_history abstracts.history l)
  have adopted := loadReal_there abstracts.history l
  rw [abstracts.adopted] at adopted
  rw [adopted] at set
  cases game : there || finds own l with
  | false =>
    rw [game] at set adopted
    have missing : (w.wrapper.loadReal own l).realVmMain = 0 := by simpa using set
    rw [enterVmMain_unadopted _ _ missing] at taken
    cases taken
    have off : t.real = false := by
      by_contra on
      simp [abstracts.real (eq_true_of_ne_false on)] at game
    refine ⟨⟨w.engine, false⟩, ?_, ⟨rfl, nofun, adopted, later⟩, ?_⟩
    · simp [Session.run, Session.step, off, abstracts.engine, vmMain]
    · have answered : t.answers [.enter false call] = [(call, some (-1))] := by
        simp [Session.answers, Session.step, off, vmMain]
      rw [answered, note_answers, note_answers, same, List.append_assoc]
      rfl
  | true =>
    rw [game] at set adopted
    rw [enterVmMain_adopted _ _ (set.mpr rfl)] at taken
    obtain ⟨passage, passed, pair⟩ := Option.map_eq_some_iff.mp taken
    cases pair
    refine ⟨⟨passage.engine, true⟩, ?_, ⟨rfl, fun _ => rfl, adopted, later⟩, ?_⟩
    · simp [Session.run, Session.step, abstracts.engine, passed]
    · have answered : t.answers [.enter true call] = [(call, passage.answer)] := by
        simp [Session.answers, Session.step, abstracts.engine, passed]
      rw [answered, note_answers, same]
      cases passage.answer <;> rfl

theorem step_refines (abstracts : Abstracts own hooks there w t) (taken : World.step own w happening = some w') :
    ∃ t', Refines own hooks (there || happening.finds own) w w' t t'
      (happening.event (there || happening.finds own)).toList := by
  have silent (event : Event) (quiet : ∀ found call, event ≠ .enter found call) (e : Engine)
      (moved : t.step event = some { t with engine := e }) :
      ∃ t', Refines own hooks (there || false) w { w with engine := e } t t' [event] := by
    rw [Bool.or_false]
    exact ⟨_, quiet_refines abstracts event quiet moved⟩
  cases happening with
  | dllEntry l engine =>
    cases taken
    exact ⟨t, dllEntry_refines abstracts l engine⟩
  | vmMain l call =>
    obtain ⟨⟨s, e⟩, entered, rfl⟩ := Option.map_eq_some_iff.mp taken
    exact enter_refines abstracts entered
  | userinfo client ui =>
    cases taken
    exact silent (.userinfo client ui) (by simp) _ (by rw [← abstracts.engine]; rfl)
  | turn world =>
    cases taken
    exact silent (.turn world) (by simp) _ (by rw [← abstracts.engine]; rfl)
  | syscall call =>
    cases taken
    exact silent (.syscall call) (by simp) _ (by rw [← abstracts.engine]; rfl)

theorem answers_append (ran : t.run events = some t') :
    t.answers (events ++ more) = t.answers events ++ t'.answers more := by
  induction events generalizing t with
  | nil =>
    cases ran
    rfl
  | cons event rest ih =>
    obtain ⟨next, stepped, later⟩ := Option.bind_eq_some_iff.mp ran
    simp only [List.cons_append, Session.answers, stepped, Option.elim, ih later, List.append_assoc]

theorem session_run_append (ran : t.run events = some t') : t.run (events ++ more) = t'.run more := by
  induction events generalizing t with
  | nil =>
    cases ran
    rfl
  | cons event rest ih =>
    obtain ⟨next, stepped, later⟩ := Option.bind_eq_some_iff.mp ran
    rw [List.cons_append, Session.run, stepped, Option.bind_some, ih later]

theorem run_refines_from (abstracts : Abstracts own hooks there w t)
    (ran : Machine.run (World.step own) w happenings = some w') :
    ∃ t', Refines own hooks (there || happenings.any (·.finds own)) w w' t t' (Happening.events own there happenings) := by
  induction happenings generalizing w t there with
  | nil =>
    cases ran
    rw [List.any_nil, Bool.or_false]
    exact ⟨t, rfl, abstracts, by simp [Happening.events, Session.answers]⟩
  | cons happening rest ih =>
    obtain ⟨next, taken, later⟩ := Option.bind_eq_some_iff.mp ran
    obtain ⟨t', first⟩ := step_refines abstracts taken
    obtain ⟨t'', second⟩ := ih first.abstracts later
    rw [List.any_cons, ← Bool.or_assoc]
    refine ⟨t'', (session_run_append first.ran).trans second.ran, second.abstracts, ?_⟩
    rw [second.answers, first.answers, Happening.events, answers_append first.ran, List.append_assoc]

/-- A run of the process is the run of a session, happening by happening: the engine gets the
same answers, and is left holding the same. -/
theorem run_refines_session (own : Addr) (hooks : Hooks.State) (e : Engine)
    (ran : Machine.run (World.step own) ⟨boot hooks, e⟩ happenings = some w') :
    ∃ t, Session.run ⟨e, false⟩ (Happening.events own false happenings) = some t ∧ t.engine = w'.engine ∧
      (t.real → w'.wrapper.real.isSome) ∧ w'.wrapper.real.isSome = happenings.any (·.finds own) ∧
      w'.wrapper.deeds.filterMap Deed.answer = Session.answers ⟨e, false⟩ (Happening.events own false happenings) := by
  have start : Abstracts own hooks false ⟨boot hooks, e⟩ ⟨e, false⟩ :=
    ⟨rfl, nofun, rfl, .inl ⟨rfl, rfl, rfl, rfl, rfl, .nil⟩⟩
  obtain ⟨t, refines⟩ := run_refines_from start ran
  have adopted := refines.abstracts.adopted
  exact ⟨t, refines.ran, refines.abstracts.engine, fun on => adopted.trans (refines.abstracts.real on),
    by rw [adopted, Bool.false_or], by simpa [boot] using refines.answers⟩

/-- No library is there yet. -/
def absent : Loader := { nearby with dlopen := fun _ => none }

/-- Without a game, passed on to the game, and held back from it. -/
def visits : List Happening := [
  .vmMain absent (.other 0), .dllEntry nearby 0x08050000, .vmMain nearby (.clientConnect 0),
  .vmMain nearby (.clientBegin 99)]

theorem run_refines_session_nearby : ∃ w t,
    Machine.run (World.step 0xF7801230) ⟨boot Hooks.Process.rconOnly, .executing []⟩ visits = some w ∧
      Session.run ⟨.executing [], false⟩ [.enter false (.other 0), .enter true (.clientConnect 0),
        .enter true (.clientBegin 99)] = some t ∧ t.engine = w.engine ∧ w.wrapper.real.isSome = true ∧
      w.wrapper.deeds.filterMap Deed.answer =
        [(.other 0, some (-1)), (.clientConnect 0, none), (.clientBegin 99, some 0)] := by
  have events : Happening.events 0xF7801230 false visits =
      [.enter false (.other 0), .enter true (.clientConnect 0), .enter true (.clientBegin 99)] := rfl
  obtain ⟨w, ran⟩ : ∃ w, Machine.run (World.step 0xF7801230) ⟨boot Hooks.Process.rconOnly, .executing []⟩ visits =
    some w := ⟨_, rfl⟩
  obtain ⟨t, session, engine, _, adopted, answers⟩ :=
    run_refines_session 0xF7801230 Hooks.Process.rconOnly (.executing []) ran
  rw [events] at session answers
  exact ⟨w, t, ran, session, engine, adopted, answers⟩

end

end World

end JaplusProxy.Boundary
