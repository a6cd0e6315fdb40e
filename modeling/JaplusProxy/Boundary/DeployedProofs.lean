import JaplusProxy.Boundary.LoadRealProofs
import JaplusProxy.Hooks.LiveProofs
import JaplusProxy.Manager.DeployProofs

/-! A directory that ensure_proxy has prepared, and what the wrapper finds there when the
engine loads it. -/
namespace JaplusProxy.Boundary
open CString X86Jump Machine Manager

namespace Wrapper

section
variable {own : Addr} {l : Loader} {s : Wrapper} {hooks : Hooks.State}

def realName : Bytes := lit "japlus_real_i386.so"
def stockName : Bytes := lit "jampgamei386.so"

def inside (dir name : Bytes) : Bytes := dir ++ [chr '/'] ++ name

/-- The engine loads `jampgamei386.so` of a directory. -/
structure Serving (own : Addr) (l : Loader) (load : Content → Option Handle) (wrapper : Content)
    (path : Bytes) (dir : LibDir) : Prop where
  /-- dladdr names the file that was loaded. -/
  self : l.dladdr.map CStr.bytes = some (inside path stockName)
  real : l.dlopen (inside path realName) = dir.real.bind load
  stock : l.dlopen (inside path stockName) = dir.stock.bind load
  /-- The wrapper's vmMain is the wrapper's. -/
  itself : ∀ h, load wrapper = some h → l.dlsym h (lit "vmMain") = own
  /-- build_env without `proxy.real_lib`, or an engine started by hand -/
  env : (l.env.map CStr.bytes).getD [] = [] ∨ (l.env.map CStr.bytes).getD [] = inside path realName

theorem directory_inside (path name : Bytes) (flat : chr '/' ∉ name) : directory (inside path name) = some path := by
  have skipped : (inside path name).reverse.dropWhile (· ≠ chr '/') = chr '/' :: path.reverse := by
    rw [inside, List.reverse_append, List.reverse_append, List.dropWhile_append_of_pos]
    · simp
    · intro c member
      have other : c ≠ chr '/' := fun same => flat (same ▸ List.mem_reverse.mp member)
      exact decide_eq_true other
  rw [directory, skipped]
  exact congrArg some (List.reverse_reverse path)

theorem candidate_inside (path name : Bytes) (short : path.length < 1024) (small : name.length ≤ 100) :
    candidate path name = inside path name := by
  rw [candidate]
  apply List.take_of_length_le
  simp only [List.length_append, List.length_cons, List.length_nil]
  omega

theorem game_inside (path name : Bytes) : game own l (inside path name) =
    (l.dlopen (inside path name)).filter (IsGame own l ·) :=
  if_neg (by simp [inside])

namespace Serving
variable {load : Content → Option Handle} {wrapper : Content} {path : Bytes} {dir : LibDir}
variable (serving : Serving own l load wrapper path dir)
include serving

/-- A directory of 1024 bytes and more is not looked into. -/
theorem siblings_eq : siblings l =
    if path.length < 1024 then [inside path realName, inside path stockName] else [] := by
  obtain ⟨self, known, named⟩ := Option.map_eq_some_iff.mp serving.self
  have found : (l.dladdr.bind fun self => directory self.bytes) = some path := by
    rw [known, Option.bind_some, named]
    exact directory_inside path stockName (by decide)
  rw [siblings, found]
  dsimp only
  by_cases short : path.length < 1024
  · rw [if_neg (Nat.not_le.mpr short), if_pos short]
    exact congrArg₂ (fun first second => [first, second]) (candidate_inside path realName short (by decide))
      (candidate_inside path stockName short (by decide))
  · rw [if_pos (Nat.not_lt.mp short), if_neg short]

/-- The wrapper does not adopt itself. -/
theorem stock_refused (deployed : dir.stock = some wrapper ∨ dir.stock = none) :
    game own l (inside path stockName) = none := by
  rw [game_inside, serving.stock, Option.filter_eq_none_iff]
  intro h loaded
  rcases deployed with placed | missing
  · rw [placed] at loaded
    exact fun accepted => (of_decide_eq_true accepted).1 (serving.itself h loaded)
  · rw [missing] at loaded
    cases loaded

/-- The backup comes first, wherever the engine runs, where its directory is looked into or
the environment names it. -/
theorem adopts (unadopted : Unadopted hooks s) (deployed : dir.stock = some wrapper ∨ dir.stock = none)
    (reached : path.length < 1024 ∨ (l.env.map CStr.bytes).getD [] = inside path realName) :
    (s.loadReal own l).real = ((dir.real.bind load).filter (IsGame own l ·)).or
      ((game own l realLib).or (game own l realLibFallback)) := by
  have backup : game own l (inside path realName) = (dir.real.bind load).filter (IsGame own l ·) := by
    rw [game_inside, serving.real]
  have refused := serving.stock_refused deployed
  have first : game own l ((l.env.map CStr.bytes).getD []) = none ∧ path.length < 1024 ∨
      game own l ((l.env.map CStr.bytes).getD []) = game own l (inside path realName) := by
    rcases serving.env with unset | set
    · rcases reached with short | set
      · rw [unset]
        exact .inl ⟨if_pos rfl, short⟩
      · exact absurd (unset.symm.trans set) (by simp [inside])
    · rw [set]
      exact .inr rfl
  rw [loadReal_real unadopted, candidates, serving.siblings_eq]
  rw [backup] at first
  by_cases short : path.length < 1024
  all_goals
    simp only [short, if_true, if_false, List.cons_append, List.nil_append, List.append_nil, List.findSome?_cons,
      List.findSome?_nil, backup, refused]
    simp only [short, and_true, and_false, false_or] at first
    generalize (dir.real.bind load).filter (IsGame own l ·) = kept at first
    generalize game own l ((l.env.map CStr.bytes).getD []) = named at first
    generalize game own l realLib = near
    generalize game own l realLibFallback = last
  · rcases first with none_ | same
    · subst none_
      cases kept <;> cases near <;> cases last <;> rfl
    · subst same
      cases named <;> cases near <;> cases last <;> rfl
  · subst first
    cases named <;> cases near <;> cases last <;> rfl

end Serving

/-- Whatever runs of ensure_proxy came before, with any wrappers and cut off anywhere, once
one completes the wrapper adopts the original, if that is a game. Only if not, it looks
into the working directory. A long directory has to be named in the environment. -/
theorem deployed_adopts (own : Addr) (hooks : Hooks.State) (load : Content → Option Handle) (path : Bytes)
    (original wrapper : Content) {dir : LibDir}
    (reaches : Reaches runProxy (fun _ r => r.wrapper ≠ original) ⟨some original, none⟩ dir)
    (other : wrapper ≠ original) (serving : Serving own l load wrapper path (dir.completed wrapper))
    (reached : path.length < 1024 ∨ (l.env.map CStr.bytes).getD [] = inside path realName) :
    ((boot hooks).loadReal own l).real = ((load original).filter (IsGame own l ·)).or
      ((game own l realLib).or (game own l realLibFallback)) := by
  have kept : Kept original dir :=
    reaches.invariant (fun _ _ _ kept other ran => runProxy_kept kept other ran) (.inr ⟨rfl, rfl⟩)
  obtain ⟨preserved, deployed⟩ := kept.completed other
  have unadopted : Unadopted hooks (boot hooks) := ⟨rfl, rfl, rfl, rfl, rfl, .nil⟩
  have adopted := serving.adopts unadopted (deployed.imp_right fun ⟨_, missing, same⟩ => by rw [same]; exact missing)
    reached
  rwa [preserved] at adopted

/-! ### A deployed server -/

/-- The wrapper is the file `[2]`, and any other file is a game. -/
def served (dir : LibDir) : Loader where
  dlopen := fun path =>
    let load (file : Content) : Handle := if file = [2] then 0xF7800000 else 0xF7000000
    if path = inside (lit "/srv/japlus") realName then dir.real.map load
    else if path = inside (lit "/srv/japlus") stockName then dir.stock.map load
    else none
  dlsym := fun h name =>
    if h = 0xF7800000 then 0xF7801230 else if name = lit "vmMain" then 0xF7001000 else 0xF7002000
  dladdr := some ⟨lit "/srv/japlus/jampgamei386.so", by decide⟩
  env := none
  process := Hooks.Process.loaded

/-- A run cut off inside its write, then a whole one. -/
theorem deployed_adopts_cut :
    ((boot (Hooks.booted 0 [])).loadReal 0xF7801230 (served (LibDir.completed ⟨some [], some [1]⟩ [2]))).real =
      some 0xF7000000 := by
  have reaches : Reaches runProxy (fun _ r => r.wrapper ≠ [1]) ⟨some [1], none⟩ ⟨some [], some [1]⟩ :=
    .next (a := ⟨[2], some 2⟩) (by decide) (by decide) .refl
  exact deployed_adopts 0xF7801230 (Hooks.booted 0 [])
    (fun file => some (if file = [2] then 0xF7800000 else 0xF7000000))
    (lit "/srv/japlus") [1] [2] reaches (by decide)
    { self := rfl
      real := by decide +kernel
      stock := by decide +kernel
      itself := by
        intro h loaded
        cases loaded
        rfl
      env := .inl rfl } (.inl (by decide))

end

end Wrapper

end JaplusProxy.Boundary
