import JaplusProxy.Userinfo.InfoStringProofs

/-! The pair loops as the source has them, without fuel: both end on every string, and
the two helpers are the dictionary's lookup and store. -/
namespace JaplusProxy.Userinfo
open CString

/-- `tmp` after a turn of Info_Set at the pair of `p`. -/
def copied (key p tmp : Bytes) (c : Cursor) : Bytes :=
  if ¬ foldEq c.key key ∧ tmp.length + (p.length - c.vend.length) < 2048 - 1 then
    tmp ++ p.take (p.length - c.vend.length)
  else tmp

/-- The loop of Info_Set ends at `p` with `out`. -/
inductive SetLoop (key : Bytes) : Bytes → Bytes → Bytes → Prop
  | stop (read : readPair p = none) : SetLoop key p tmp tmp
  | last (read : readPair p = some c) (ended : peek c.vend = 0) : SetLoop key p tmp (copied key p tmp c)
  | turn (read : readPair p = some c) (more : peek c.vend ≠ 0)
      (rest : SetLoop key c.vend (copied key p tmp c) out) : SetLoop key p tmp out

/-- The loop of Info_Value ends at `info` with what it copied, if anything. -/
inductive ValueLoop (key : Bytes) (outlen : Nat) : Bytes → Option Bytes → Prop
  | stop (read : readPair info = none) : ValueLoop key outlen info none
  | found (read : readPair info = some c) (matched : foldEq c.key key = true) :
      ValueLoop key outlen info (some (c.value.take (outlen - 1)))
  | last (read : readPair info = some c) (skipped : foldEq c.key key = false) (ended : peek c.vend = 0) :
      ValueLoop key outlen info none
  | turn (read : readPair info = some c) (skipped : foldEq c.key key = false) (more : peek c.vend ≠ 0)
      (rest : ValueLoop key outlen c.vend out) : ValueLoop key outlen info out

theorem infoSetLoop_ends (key tmp : Bytes) (fuel : Nat) (enough : p.length ≤ fuel) :
    SetLoop key p tmp (infoSetLoop key fuel p tmp) := by
  induction fuel generalizing p tmp with
  | zero =>
    obtain rfl : p = [] := List.length_eq_zero_iff.mp (by omega)
    exact .stop (by decide)
  | succ fuel ih =>
    cases read : readPair p with
    | none => simpa [infoSetLoop, read] using SetLoop.stop read
    | some c =>
      have shorter := readPair_length read
      simp only [infoSetLoop, read]
      by_cases ended : peek c.vend = 0
      · rw [if_pos ended]
        exact .last read ended
      · rw [if_neg ended]
        exact .turn read ended (ih _ (by omega))

theorem infoValueLoop_ends (key : Bytes) (outlen fuel : Nat) (enough : info.length ≤ fuel) :
    ValueLoop key outlen info (infoValueLoop key outlen fuel info) := by
  induction fuel generalizing info with
  | zero =>
    obtain rfl : info = [] := List.length_eq_zero_iff.mp (by omega)
    exact .stop (by decide)
  | succ fuel ih =>
    cases read : readPair info with
    | none => simpa [infoValueLoop, read] using ValueLoop.stop read
    | some c =>
      have shorter := readPair_length read
      simp only [infoValueLoop, read]
      by_cases matched : foldEq c.key key = true
      · rw [if_pos matched]
        exact .found read matched
      · have skipped := eq_false_of_ne_true matched
        rw [if_neg matched]
        by_cases ended : peek c.vend = 0
        · rw [if_pos ended]
          exact .last read skipped ended
        · rw [if_neg ended]
          exact .turn read skipped ended (ih (by omega))

/-- Both loops end, and the helpers compute the dictionary's operations. -/
structure KeyValueList (s key value : Bytes) : Prop where
  setEnds : SetLoop key s [] (infoSetLoop key s.length s [])
  valueEnds : ∀ outlen, ValueLoop key outlen s (infoValueLoop key outlen s.length s)
  set : pairs (infoSet s 2048 key value) =
    (pairs s).filter (fun p => ¬ foldEq p.1 key) ++ if value = [] then [] else [(key, value)]
  value : ∀ outlen ≠ 0, infoValue s key outlen =
    ((pairs s).find? fun p => foldEq p.1 key).map fun p => p.2.take (outlen - 1)

theorem info_keyValueList (s key value : CStr)
    (keyPlain : chr '\\' ∉ key.bytes) (valuePlain : chr '\\' ∉ value.bytes)
    (room : s.bytes.length + key.bytes.length + value.bytes.length + 2 < 2047) :
    KeyValueList s.bytes key.bytes value.bytes where
  setEnds := infoSetLoop_ends _ _ _ (Nat.le_refl _)
  valueEnds _ := infoValueLoop_ends _ _ _ (Nat.le_refl _)
  set := pairs_infoSet value.nulFree ⟨keyPlain, valuePlain⟩ (by omega)
  value outlen positive := by
    rw [infoValue_spec positive, lookup, Option.map_map]
    rfl

theorem info_keyValueList_rate :
    KeyValueList (lit "\\Rate\\1\\name\\\\rate\\2\\x") (lit "rate") (lit "25000") :=
  info_keyValueList ⟨lit "\\Rate\\1\\name\\\\rate\\2\\x", by decide⟩ ⟨lit "rate", by decide⟩
    ⟨lit "25000", by decide⟩ (by decide) (by decide) (by decide)

end JaplusProxy.Userinfo
