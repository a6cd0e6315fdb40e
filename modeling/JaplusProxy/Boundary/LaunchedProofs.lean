import JaplusProxy.Boundary.DeployedProofs
import JaplusProxy.Manager.StartProofs

/-! From the start of a server to its game: an engine that cmd_start launches comes to the
game that was there before the wrapper. -/
namespace JaplusProxy.Boundary
open CString X86Jump PyString Manager Manager.Start

/-- `os.fsencode` -/
def fsencode (s : Str) : Bytes := s.flatMap String.utf8EncodeChar

theorem fsencode_inside {dir : PyPath} (below : dir.parts ≠ []) :
    fsencode (dir.join realLibName).toStr = Wrapper.inside (fsencode dir.toStr) Wrapper.realName := by
  have name : fsencode ('/' :: str "japlus_real_i386.so") = chr '/' :: Wrapper.realName := by decide
  rw [realLibName, PyPath.toStr_join_name below, fsencode, List.flatMap_append, Wrapper.inside, List.append_assoc]
  exact congrArg _ name

namespace Wrapper

/-- The engine runs with the environment that japm.py gave it. -/
def Inherits (l : Loader) (started : Started) : Prop :=
  l.env.map CStr.bytes = (started.env.get? (str "JAPLUS_REAL")).map fsencode

/-- Where cmd_start has launched with the proxy and nothing else is named as the original,
the wrapper adopts the library that had the name of the game before it, if that is a game. -/
theorem launched_adopts {host : Host} {found fs after : Fs} {running : Bool} {cfg cfg' : Config} {started : Started}
    (ran : cmdStart host found fs running cfg = .launched after started cfg') (enabled : cfg.proxy.enabled = true)
    (unnamed : cfg.proxy.realLib = []) (dir : PyPath) (original wrapper : Content) (load : Content → Option Handle)
    (own : Addr) (l : Loader) (hooks : Hooks.State) (chosen : (gameLibDir host after cfg').1 = some dir)
    (below : dir.parts ≠ []) (readable : Readable fs dir) (kept : Kept original (libDir fs dir))
    (read : (fs (source host cfg.proxy)).read = some wrapper) (other : wrapper ≠ original)
    (inherits : Inherits l started)
    (served : Serving own { l with env := none } load wrapper (fsencode dir.toStr) (libDir after dir)) :
    ((boot hooks).loadReal own l).real = ((load original).filter (IsGame own l ·)).or
      ((game own l realLib).or (game own l realLibFallback)) := by
  obtain ⟨gamedata, dir', wrapper', _, serves⟩ := cmdStart_serves ran enabled
  have proxy := cmdStart_proxy ran
  obtain rfl : dir' = dir := by
    rw [serves.chosen] at chosen
    exact Option.some.inj chosen
  obtain rfl : wrapper' = wrapper := by
    have again := serves.placed.read
    rw [proxy, read] at again
    exact (Option.some.inj again).symm
  have deployed := serves.placed.deploys.libs readable
  have named : (l.env.map CStr.bytes).getD [] = inside (fsencode dir'.toStr) realName := by
    rw [inherits, serves.real, proxy, if_pos unnamed, ← fsencode_inside below]
    rfl
  have serving : Serving own l load wrapper' (fsencode dir'.toStr) (libDir after dir') :=
    { self := served.self, real := served.real, stock := served.stock, itself := served.itself,
      env := .inr named }
  obtain ⟨preserved, placed⟩ := kept.completed other
  have unadopted : Unadopted hooks (boot hooks) := ⟨rfl, rfl, rfl, rfl, rfl, .nil⟩
  rw [deployed] at serving
  have adopted := serving.adopts unadopted (placed.imp_right fun ⟨_, missing, same⟩ => by rw [same]; exact missing)
    (.inr named)
  rwa [preserved] at adopted

/-! ### The server below `/srv` -/

/-- The wrapper is at 0xF7800000, and the game at 0xF7000000. -/
def onSrv : Loader where
  dlopen := fun path =>
    if path = lit "/srv/japlus_real_i386.so" then some 0xF7000000
    else if path = lit "/srv/jampgamei386.so" then some 0xF7800000
    else none
  dlsym := fun h name =>
    if h = 0xF7800000 then 0xF7801230 else if name = lit "vmMain" then 0xF7001000 else 0xF7002000
  dladdr := some ⟨lit "/srv/jampgamei386.so", by decide⟩
  env := some ⟨lit "/srv/japlus_real_i386.so", by decide⟩
  process := Hooks.Process.loaded

theorem launched_adopts_srv : ((boot (Hooks.booted 0 [])).loadReal 0xF7801230 onSrv).real = some 0xF7000000 := by
  have ran : cmdStart srv stockFiles stockFiles false fresh = .launched _ _ _ := rfl
  exact launched_adopts ran rfl rfl (.parse (str "/srv")) [1] [0x7F, 0x45, 0x4C, 0x46, 1]
    (fun file => some (if file = [1] then 0xF7000000 else 0xF7800000)) 0xF7801230 onSrv (Hooks.booted 0 []) rfl
    (by decide) (.inl rfl) (.inr ⟨rfl, rfl⟩) rfl (by decide) rfl
    { self := rfl
      real := by rfl
      stock := by rfl
      itself := by
        intro h loaded
        cases loaded
        rfl
      env := .inl rfl }

end Wrapper

end JaplusProxy.Boundary
