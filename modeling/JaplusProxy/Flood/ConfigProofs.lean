import JaplusProxy.Flood.Detours
import JaplusProxy.Machine

/-! The rates are in range wherever OOB_ShouldDrop divides by them. A time of 0 has them
read again; any other time was set together with them. -/
namespace JaplusProxy.Flood
open CString CInt

/-- A packet, the clock, and what the engine answers for each cvar at that moment. -/
structure OobCall where
  ipi : UInt32
  now : Int
  cvar : Bytes → Int

def OobCall.step (s : Oob) (call : OobCall) : Option Oob := some (oobShouldDrop s call.cvar call.ipi call.now).1

/-- A division by a rate, and the call of OOB_RateLimit behind it. -/
structure LimitCall where
  rate : Int
  maxBurst : Int
  period : Int

/-- What OOB_ShouldDrop divides by and passes on, in order; none of it for loopback. -/
def OobCall.limits (s : Oob) (call : OobCall) : List LimitCall :=
  if call.ipi = loopback then []
  else
    let s := oobRefreshCfg s call.cvar call.now
    let perIp : LimitCall := ⟨s.cfgIp, 10 * s.cfgIp, Int.tdiv 1000 s.cfgIp⟩
    if (rateLimitFor s.table call.ipi perIp.maxBurst perIp.period call.now).2 then [perIp]
    else [perIp, ⟨s.cfgAll, s.cfgAll, Int.tdiv 1000 s.cfgAll⟩]

/-- OOB_ShouldDrop by these calls alone. -/
def OobCall.runLimits (s : Oob) (call : OobCall) : List LimitCall → Oob × Bool
  | [] => (s, false)
  | perIp :: rest =>
    let s := oobRefreshCfg s call.cvar call.now
    let (table, limited) := rateLimitFor s.table call.ipi perIp.maxBurst perIp.period call.now
    let s := { s with table := table }
    match rest with
    | [] => (s, limited)
    | all :: _ =>
      let (bucket, limited) := oobRateLimit s.globalBucket all.maxBurst all.period call.now
      ({ s with globalBucket := bucket }, limited)

theorem oobShouldDrop_limits (s : Oob) (call : OobCall) :
    oobShouldDrop s call.cvar call.ipi call.now = call.runLimits s (call.limits s) := by
  rw [oobShouldDrop, OobCall.limits]
  by_cases own : call.ipi = loopback
  · rw [if_pos own, if_pos own]
    rfl
  · rw [if_neg own, if_neg own]
    dsimp only
    split
    · rename_i limited
      simp only [OobCall.runLimits, limited]
    · rfl

def RateRange (rate : Int) : Prop := 1 ≤ rate ∧ rate ≤ 1000

/-- Both rates are as a refresh leaves them. -/
structure RatesSet (s : Oob) : Prop where
  ip : RateRange s.cfgIp
  all : RateRange s.cfgAll

theorem clampRate_range (v : Int) (range : RateRange absent) : RateRange (clampRate v absent) := by
  obtain ⟨low, high⟩ := range
  rw [clampRate]
  split_ifs <;> constructor <;> omega

theorem oobRefreshCfg_configured (initialized : s.cfgTime ≠ 0 → RatesSet s) (cvar : Bytes → Int) (now : Int) :
    RatesSet (oobRefreshCfg s cvar now) := by
  rw [oobRefreshCfg]
  split
  · rename_i early
    exact initialized early.1
  · constructor
    · exact clampRate_range _ (by constructor <;> decide)
    · exact clampRate_range _ (by constructor <;> decide)

/-- Behind the refresh the configuration stays. -/
theorem oobShouldDrop_config (s : Oob) (cvar : Bytes → Int) (now : Int) (remote : ipi ≠ loopback) :
    (oobShouldDrop s cvar ipi now).1.cfgIp = (oobRefreshCfg s cvar now).cfgIp ∧
      (oobShouldDrop s cvar ipi now).1.cfgAll = (oobRefreshCfg s cvar now).cfgAll := by
  rw [oobShouldDrop, if_neg remote]
  dsimp only
  split <;> exact ⟨rfl, rfl⟩

theorem OobCall.step_configured (initialized : s.cfgTime ≠ 0 → RatesSet s) (call : OobCall)
    (stepped : call.step s = some t) : t.cfgTime ≠ 0 → RatesSet t := by
  obtain rfl := Option.some.inj stepped
  intro started
  by_cases remote : call.ipi = loopback
  · rw [oobShouldDrop, if_pos remote] at started ⊢
    exact initialized started
  · obtain ⟨ip, all⟩ := oobShouldDrop_config s call.cvar call.now remote
    have refreshed := oobRefreshCfg_configured initialized call.cvar call.now
    exact ⟨ip ▸ refreshed.ip, all ▸ refreshed.all⟩

theorem period_range (range : RateRange rate) : RateRange (Int.tdiv 1000 rate) := by
  obtain ⟨low, high⟩ := range
  rw [Int.tdiv_eq_ediv_of_nonneg (by decide)]
  constructor
  · rw [Int.le_ediv_iff_mul_le (by omega)]
    omega
  · exact Int.ediv_le_self _ (by decide)

/-- The divisions of a call, with both rates in range, and calls of OOB_RateLimit that do
not take its way out. -/
structure Guarded (s : Oob) (call : OobCall) : Prop where
  calls : oobShouldDrop s call.cvar call.ipi call.now = call.runLimits s (call.limits s)
  rates : call.limits s ≠ [] → RatesSet (oobRefreshCfg s call.cvar call.now)
  divisors : ∀ l ∈ call.limits s, RateRange l.rate
  periods : ∀ l ∈ call.limits s, RateRange l.period
  bursts : ∀ l ∈ call.limits s, 0 < l.maxBurst

/-- However the clock and the cvars go, no rate divided by is out of range. -/
theorem oobShouldDrop_guarded (reached : Machine.Reachable OobCall.step {} s) (call : OobCall) : Guarded s call := by
  have initialized : s.cfgTime ≠ 0 → RatesSet s :=
    reached.invariant (fun _ call _ before _ taken => call.step_configured before taken) (absurd rfl)
  have rates := oobRefreshCfg_configured initialized call.cvar call.now
  have each : ∀ l ∈ call.limits s, RateRange l.rate ∧ RateRange l.period ∧ 0 < l.maxBurst := by
    have ip := rates.ip.1
    have all := rates.all.1
    intro l member
    rw [OobCall.limits] at member
    split at member
    · cases member
    · dsimp only at member
      split at member
      · obtain rfl := List.mem_singleton.mp member
        exact ⟨rates.ip, period_range rates.ip, by dsimp only; omega⟩
      · rcases List.mem_pair.mp member with rfl | rfl
        · exact ⟨rates.ip, period_range rates.ip, by dsimp only; omega⟩
        · exact ⟨rates.all, period_range rates.all, by dsimp only; omega⟩
  exact ⟨oobShouldDrop_limits s call, fun _ => rates, fun l member => (each l member).1, fun l member => (each l member).2.1,
    fun l member => (each l member).2.2⟩

/-- A clock that stands at 0, and cvars of the wrong sign. -/
def zeroCall : OobCall := ⟨0x04030201, 0, fun _ => -5⟩

theorem oobShouldDrop_guarded_zero : Guarded (oobShouldDrop {} zeroCall.cvar zeroCall.ipi zeroCall.now).1 zeroCall :=
  oobShouldDrop_guarded (.next trivial (show zeroCall.step {} = _ from rfl) .refl) zeroCall

end JaplusProxy.Flood
