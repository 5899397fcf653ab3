import Barkis.Staking.Types
import Barkis.Lib.FixedWidth
import Barkis.Types.TimeText

/-!
# Staking store keys

`x/staking/types/keys.go`. The power index key is the prefix, the consensus power as a big-endian
`uint64` and the inverted operator address, so a scan in key order meets the validators by
rising power and, at one power, by falling address. The index keys of unbonding delegations and
redelegations hold the addresses of the main key in another order, and are cut back into it at
fixed offsets.

* `powerRank_lt_iff`: for powers of zero or more, keys compare as the powers, then as the
  operator addresses turned around; `parseValidatorPowerRankKey` reads the operator back;
* `getUBDKeyFromValIndexKey_getUBDByValIndexKey` and the two for redelegations: the index keys of
  `AddrLen`-byte addresses are cut back into the main key;
* `getQueueTimeKey_lt_iff`: the queues are keyed by `FormatTimeBytes`, so from year 0 to 9999 they
  meet their entries in the order of time.
-/

namespace Barkis.Staking

open Bank Barkis.Lex Barkis.FixedWidth

/-! ## The power index -/

/-- `ParseValidatorPowerRankKey`; a key of another length panics. -/
def parseValidatorPowerRankKey (key : List UInt8) : Option ValAddress :=
  let powerBytesLen := 8
  if key.length ≠ 1 + powerBytesLen + addrLen then none
  else some ((key.drop (powerBytesLen + 1)).map (~~~ ·))

/-- `PutUint64` writes the eight base-256 digits. -/
theorem putUint64_eq (n : Nat) : putUint64 n = (fixedDigits 256 8 n).map UInt8.ofNat := by
  simp only [putUint64, fixedDigits, List.map_map]
  refine List.map_congr_left fun i _ => ?_
  apply UInt8.toNat_inj.1
  simp [UInt8.toNat_ofNat']

theorem putUint64_lt_iff {n m : Nat} (hn : n < 2 ^ 64) (hm : m < 2 ^ 64) :
    putUint64 n < putUint64 m ↔ n < m := by
  have hdig : ∀ x, ∀ d ∈ fixedDigits 256 8 x, d ∈ {d | d < 256} :=
    fun x => fixedDigits_lt (by norm_num) 8 x
  rw [putUint64_eq, putUint64_eq, map_lt_map_iff strictMonoOn_ofNat (hdig n) (hdig m),
    fixedDigits_lt_iff (by norm_num) 8 (by simpa using hn) (by simpa using hm)]

theorem putUint64_inj {n m : Nat} (hn : n < 2 ^ 64) (hm : m < 2 ^ 64) :
    putUint64 n = putUint64 m ↔ n = m := by
  have hmono : StrictMonoOn putUint64 {x | x < 2 ^ 64} :=
    fun x hx y hy h => (putUint64_lt_iff hx hy).2 h
  exact hmono.injOn.eq_iff hn hm

/-- The power a key writes: `TokensToConsensusPower` of tokens from zero to `2^63 · 10^6`. -/
theorem tokensToConsensusPower_of_nonneg {tokens : SdkInt} (h0 : 0 ≤ tokens.i)
    (h63 : tokens.i < 2 ^ 63 * 10 ^ 6) :
    tokensToConsensusPower tokens = some (tokens.i / powerReduction) ∧
      0 ≤ tokens.i / powerReduction ∧ tokens.i / powerReduction < 2 ^ 63 := by
  have hdiv : tokens.i.tdiv powerReduction = tokens.i / powerReduction :=
    Int.tdiv_eq_ediv_of_nonneg h0
  have hp : 0 ≤ tokens.i / powerReduction := Int.ediv_nonneg h0 (by decide)
  have hlt : tokens.i / powerReduction < 2 ^ 63 := by
    rw [Int.ediv_lt_iff_lt_mul (by decide)]
    simpa [powerReduction] using h63
  refine ⟨?_, hp, hlt⟩
  rw [tokensToConsensusPower, hdiv, if_pos ⟨by omega, hlt⟩]

/-- The key of an `AddrLen`-byte operator at a power of zero or more. -/
theorem getValidatorsByPowerIndexKey_eq {a : ValAddress} {v : Validator} {power : Int}
    (ha : a.length = addrLen) (hp : tokensToConsensusPower v.tokens = some power)
    (h0 : 0 ≤ power) :
    getValidatorsByPowerIndexKey a v =
      some (validatorsByPowerIndexKey :: putUint64 power.toNat ++ a.map (~~~ ·)) := by
  have hmod : power % 2 ^ 64 = power := by
    have : power < 2 ^ 63 := by
      unfold tokensToConsensusPower at hp
      dsimp only at hp
      split_ifs at hp with h
      cases hp
      exact h.2
    exact Int.emod_eq_of_lt h0 (by omega)
  rw [getValidatorsByPowerIndexKey, hp, Option.map_some, hmod,
    List.take_left' (by simpa using ha)]

/-- `ParseValidatorPowerRankKey` reads back the operator of an `AddrLen`-byte address. -/
theorem parseValidatorPowerRankKey_eq {a : ValAddress} {v : Validator} {key : List UInt8}
    (ha : a.length = addrLen) (h : getValidatorsByPowerIndexKey a v = some key) :
    parseValidatorPowerRankKey key = some a := by
  have hlen : key.length = 1 + 8 + addrLen := by
    obtain ⟨power, -, rfl⟩ := Option.map_eq_some_iff.1 h
    simp [putUint64, addrLen]
  rw [parseValidatorPowerRankKey, if_neg (by simpa using hlen),
    drop_getValidatorsByPowerIndexKey ha h]
  simp [List.map_map, Function.comp_def, UInt8.not_not]

/-- Keys of `AddrLen`-byte operators at powers from zero to `2^63` compare as the powers, then as
the operators turned around. -/
theorem powerRank_lt_iff {a b : ValAddress} (ha : a.length = addrLen) (hb : b.length = addrLen)
    {pa pb : Int} (hpa : 0 ≤ pa) (hpb : 0 ≤ pb) (hla : pa < 2 ^ 63) (hlb : pb < 2 ^ 63) :
    validatorsByPowerIndexKey :: putUint64 pa.toNat ++ a.map (~~~ ·) <
        validatorsByPowerIndexKey :: putUint64 pb.toNat ++ b.map (~~~ ·) ↔
      pa < pb ∨ pa = pb ∧ b < a := by
  have hna : pa.toNat < 2 ^ 64 := by omega
  have hnb : pb.toNat < 2 ^ 64 := by omega
  rw [List.cons_append, List.cons_append, List.cons_lt_cons_iff,
    append_lt_append_of_length_eq _ _ (by simp [putUint64]), putUint64_lt_iff hna hnb,
    putUint64_inj hna hnb, map_lt_map_iff_of_strictAnti strictAnti_not (by rw [ha, hb])]
  have hlt : pa.toNat < pb.toNat ↔ pa < pb := by omega
  have heq : pa.toNat = pb.toNat ↔ pa = pb := by omega
  simp only [lt_irrefl, true_and, false_or, hlt, heq]

/-! ## Unbonding delegations and redelegations -/

/-- `UnbondingDelegationKey`. -/
def unbondingDelegationKey : UInt8 := 0x32

/-- `UnbondingDelegationByValIndexKey`. -/
def unbondingDelegationByValIndexKey : UInt8 := 0x33

/-- `RedelegationKey`. -/
def redelegationKey : UInt8 := 0x34

/-- `RedelegationByValSrcIndexKey`. -/
def redelegationByValSrcIndexKey : UInt8 := 0x35

/-- `RedelegationByValDstIndexKey`. -/
def redelegationByValDstIndexKey : UInt8 := 0x36

/-- The slice `s[lo:hi]`. -/
def slice (s : List UInt8) (lo hi : Nat) : List UInt8 := (s.drop lo).take (hi - lo)

/-- `copy` of `src` into `n` fresh zero bytes: the bytes of `src` that fit, then zeros. -/
def copyInto (n : Nat) (src : List UInt8) : List UInt8 := (src ++ List.replicate n 0).take n

/-- `GetUBDsKey`. -/
def getUBDsKey (delAddr : AccAddress) : List UInt8 := unbondingDelegationKey :: delAddr

/-- `GetUBDsByValIndexKey`. -/
def getUBDsByValIndexKey (valAddr : ValAddress) : List UInt8 :=
  unbondingDelegationByValIndexKey :: valAddr

/-- `GetUBDKey`. -/
def getUBDKey (delAddr : AccAddress) (valAddr : ValAddress) : List UInt8 :=
  getUBDsKey delAddr ++ valAddr

/-- `GetUBDByValIndexKey`. -/
def getUBDByValIndexKey (delAddr : AccAddress) (valAddr : ValAddress) : List UInt8 :=
  getUBDsByValIndexKey valAddr ++ delAddr

/-- `GetUBDKeyFromValIndexKey`; the slice `IndexKey[1:]` of an empty key panics, and so does a key
of another length. -/
def getUBDKeyFromValIndexKey (indexKey : List UInt8) : Option (List UInt8) :=
  if indexKey.length < 1 then none
  else
    let addrs := indexKey.drop 1
    if addrs.length ≠ 2 * addrLen then none
    else
      let valAddr := addrs.take addrLen
      let delAddr := addrs.drop addrLen
      some (getUBDKey delAddr valAddr)

/-- `GetREDsKey`. -/
def getREDsKey (delAddr : AccAddress) : List UInt8 := redelegationKey :: delAddr

/-- `GetREDsFromValSrcIndexKey`. -/
def getREDsFromValSrcIndexKey (valSrcAddr : ValAddress) : List UInt8 :=
  redelegationByValSrcIndexKey :: valSrcAddr

/-- `GetREDsToValDstIndexKey`. -/
def getREDsToValDstIndexKey (valDstAddr : ValAddress) : List UInt8 :=
  redelegationByValDstIndexKey :: valDstAddr

/-- `GetREDKey`: the three parts copied into the slots of a key of `1 + 3 * AddrLen` bytes. -/
def getREDKey (delAddr : AccAddress) (valSrcAddr valDstAddr : ValAddress) : List UInt8 :=
  copyInto (addrLen + 1) (getREDsKey delAddr) ++ copyInto addrLen valSrcAddr ++
    copyInto addrLen valDstAddr

/-- The index keys of a redelegation: the index prefix, then the two other addresses copied into
slots of `AddrLen` bytes. -/
def getREDByValIndexKey (indexPrefix : List UInt8) (first second : List UInt8) : List UInt8 :=
  indexPrefix ++ copyInto addrLen first ++ copyInto addrLen second

/-- `GetREDByValSrcIndexKey`. -/
def getREDByValSrcIndexKey (delAddr : AccAddress) (valSrcAddr valDstAddr : ValAddress) :
    List UInt8 :=
  getREDByValIndexKey (getREDsFromValSrcIndexKey valSrcAddr) delAddr valDstAddr

/-- `GetREDByValDstIndexKey`. -/
def getREDByValDstIndexKey (delAddr : AccAddress) (valSrcAddr valDstAddr : ValAddress) :
    List UInt8 :=
  getREDByValIndexKey (getREDsToValDstIndexKey valDstAddr) delAddr valSrcAddr

/-- The three address slots of a redelegation index key; a key of another length panics. -/
def redelegationSlots (indexKey : List UInt8) : Option (List UInt8 × List UInt8 × List UInt8) :=
  if indexKey.length ≠ 3 * addrLen + 1 then none
  else
    some (slice indexKey 1 (addrLen + 1), slice indexKey (addrLen + 1) (2 * addrLen + 1),
      slice indexKey (2 * addrLen + 1) (3 * addrLen + 1))

/-- `GetREDKeyFromValSrcIndexKey`. -/
def getREDKeyFromValSrcIndexKey (indexKey : List UInt8) : Option (List UInt8) :=
  (redelegationSlots indexKey).map fun (valSrcAddr, delAddr, valDstAddr) =>
    getREDKey delAddr valSrcAddr valDstAddr

/-- `GetREDKeyFromValDstIndexKey`. -/
def getREDKeyFromValDstIndexKey (indexKey : List UInt8) : Option (List UInt8) :=
  (redelegationSlots indexKey).map fun (valDstAddr, delAddr, valSrcAddr) =>
    getREDKey delAddr valSrcAddr valDstAddr

theorem copyInto_of_length {n : Nat} {src : List UInt8} (h : src.length = n) :
    copyInto n src = src :=
  List.take_left' h

theorem getUBDKeyFromValIndexKey_getUBDByValIndexKey {d : AccAddress} {v : ValAddress}
    (hd : d.length = addrLen) (hv : v.length = addrLen) :
    getUBDKeyFromValIndexKey (getUBDByValIndexKey d v) = some (getUBDKey d v) := by
  have hlen : (getUBDByValIndexKey d v).drop 1 = v ++ d := rfl
  rw [getUBDKeyFromValIndexKey, if_neg (by simp [getUBDByValIndexKey, getUBDsByValIndexKey]), hlen,
    if_neg (by simp [hd, hv, addrLen]), List.take_left' hv, List.drop_left' hv]

/-- A redelegation index key of `AddrLen`-byte addresses has them in its slots. -/
theorem redelegationSlots_getREDByValIndexKey {tag : UInt8} {x y z : List UInt8}
    (hx : x.length = addrLen) (hy : y.length = addrLen) (hz : z.length = addrLen) :
    redelegationSlots (getREDByValIndexKey (tag :: x) y z) = some (x, y, z) := by
  rw [getREDByValIndexKey, copyInto_of_length hy, copyInto_of_length hz]
  have hlen : (tag :: x ++ y ++ z).length = 3 * addrLen + 1 := by
    simp [hx, hy, hz]
    omega
  rw [redelegationSlots, if_neg (by rw [hlen]; exact not_not.2 rfl)]
  simp only [slice, addrLen] at hx hy hz ⊢
  have hx' : x.drop 40 = [] := List.drop_eq_nil_of_le (by omega)
  simp [List.drop_append, hx, hy, hz, hx']

theorem getREDKeyFromValSrcIndexKey_getREDByValSrcIndexKey {d : AccAddress} {s t : ValAddress}
    (hd : d.length = addrLen) (hs : s.length = addrLen) (ht : t.length = addrLen) :
    getREDKeyFromValSrcIndexKey (getREDByValSrcIndexKey d s t) = some (getREDKey d s t) := by
  rw [getREDKeyFromValSrcIndexKey, getREDByValSrcIndexKey, getREDsFromValSrcIndexKey,
    redelegationSlots_getREDByValIndexKey hs hd ht]
  rfl

theorem getREDKeyFromValDstIndexKey_getREDByValDstIndexKey {d : AccAddress} {s t : ValAddress}
    (hd : d.length = addrLen) (hs : s.length = addrLen) (ht : t.length = addrLen) :
    getREDKeyFromValDstIndexKey (getREDByValDstIndexKey d s t) = some (getREDKey d s t) := by
  rw [getREDKeyFromValDstIndexKey, getREDByValDstIndexKey, getREDsToValDstIndexKey,
    redelegationSlots_getREDByValIndexKey ht hd hs]
  rfl

/-! ## Queues -/

/-- `UnbondingQueueKey`. -/
def unbondingQueueKey : UInt8 := 0x41

/-- `RedelegationQueueKey`. -/
def redelegationQueueKey : UInt8 := 0x42

/-- `ValidatorQueueKey`. -/
def validatorQueueKey : UInt8 := 0x43

/-- The key of a queue's entries at a time: the queue's prefix, then `FormatTimeBytes`. -/
def getQueueTimeKey (queueKey : UInt8) (timestamp : Time) : List UInt8 :=
  queueKey :: formatTimeBytes timestamp

/-- `GetValidatorQueueTimeKey`. -/
def getValidatorQueueTimeKey (timestamp : Time) : List UInt8 :=
  getQueueTimeKey validatorQueueKey timestamp

/-- `GetUnbondingDelegationTimeKey`. -/
def getUnbondingDelegationTimeKey (timestamp : Time) : List UInt8 :=
  getQueueTimeKey unbondingQueueKey timestamp

/-- `GetRedelegationTimeKey`. -/
def getRedelegationTimeKey (timestamp : Time) : List UInt8 :=
  getQueueTimeKey redelegationQueueKey timestamp

section Queues

variable (queueKey : UInt8) {t u : Time} (ht : 0 ≤ t.year ∧ t.year ≤ 9999)
  (hu : 0 ≤ u.year ∧ u.year ≤ 9999)
include ht hu

/-- From year 0 to 9999 a queue's keys are ordered as the times. -/
theorem getQueueTimeKey_lt_iff :
    getQueueTimeKey queueKey t < getQueueTimeKey queueKey u ↔ t.before u := by
  rw [getQueueTimeKey, getQueueTimeKey, List.cons_lt_cons_self, formatTimeBytes_lt_iff ht hu]

/-- A scan of a queue up to the key of `u`, inclusive, meets the entries at times not after
`u`. -/
theorem getQueueTimeKey_le_iff :
    getQueueTimeKey queueKey t ≤ getQueueTimeKey queueKey u ↔ ¬u.before t := by
  rw [← not_lt, getQueueTimeKey_lt_iff queueKey hu ht]

end Queues

/-! ## The keys of the store -/

theorem storeKeys_sortable :
    (∀ (a b : ValAddress) (va vb : Validator), a.length = addrLen → b.length = addrLen →
      0 ≤ va.tokens.i → va.tokens.i < 2 ^ 63 * 10 ^ 6 →
      0 ≤ vb.tokens.i → vb.tokens.i < 2 ^ 63 * 10 ^ 6 →
      ∃ pa pb ka kb, va.potentialConsensusPower = some pa ∧
        vb.potentialConsensusPower = some pb ∧
        getValidatorsByPowerIndexKey a va = some ka ∧
        getValidatorsByPowerIndexKey b vb = some kb ∧
        (ka < kb ↔ pa < pb ∨ pa = pb ∧ b < a) ∧ parseValidatorPowerRankKey ka = some a) ∧
    (∀ (d : AccAddress) (v s t : ValAddress), d.length = addrLen → v.length = addrLen →
      s.length = addrLen → t.length = addrLen →
      getUBDKeyFromValIndexKey (getUBDByValIndexKey d v) = some (getUBDKey d v) ∧
      getREDKeyFromValSrcIndexKey (getREDByValSrcIndexKey d s t) = some (getREDKey d s t) ∧
      getREDKeyFromValDstIndexKey (getREDByValDstIndexKey d s t) = some (getREDKey d s t)) ∧
    (∀ t u : Time, 0 ≤ t.year ∧ t.year ≤ 9999 → 0 ≤ u.year ∧ u.year ≤ 9999 →
      (formatTimeBytes t < formatTimeBytes u ↔ t.before u) ∧
        parseTimeBytes (formatTimeBytes t) = .ok t) := by
  refine ⟨?_, ?_, ?_⟩
  · intro a b va vb ha hb ha0 ha63 hb0 hb63
    obtain ⟨hpa, hpa0, hpa63⟩ := tokensToConsensusPower_of_nonneg ha0 ha63
    obtain ⟨hpb, hpb0, hpb63⟩ := tokensToConsensusPower_of_nonneg hb0 hb63
    have hka := getValidatorsByPowerIndexKey_eq ha hpa hpa0
    have hkb := getValidatorsByPowerIndexKey_eq hb hpb hpb0
    exact ⟨_, _, _, _, hpa, hpb, hka, hkb, powerRank_lt_iff ha hb hpa0 hpb0 hpa63 hpb63,
      parseValidatorPowerRankKey_eq ha hka⟩
  · intro d v s t hd hv hs ht
    exact ⟨getUBDKeyFromValIndexKey_getUBDByValIndexKey hd hv,
      getREDKeyFromValSrcIndexKey_getREDByValSrcIndexKey hd hs ht,
      getREDKeyFromValDstIndexKey_getREDByValDstIndexKey hd hs ht⟩
  · intro t u ht hu
    exact ⟨formatTimeBytes_lt_iff ht hu, parseTimeBytes_formatTimeBytes ht⟩

theorem storeKeys_sortable_epoch :
    (∃ pa pb ka kb, newValidator.potentialConsensusPower = some pa ∧
      newValidator.potentialConsensusPower = some pb ∧
      getValidatorsByPowerIndexKey (List.replicate 20 1) newValidator = some ka ∧
      getValidatorsByPowerIndexKey (List.replicate 20 2) newValidator = some kb ∧
      (ka < kb ↔
        pa < pb ∨ pa = pb ∧ (List.replicate 20 2 : ValAddress) < List.replicate 20 1) ∧
      parseValidatorPowerRankKey ka = some (List.replicate 20 1)) ∧
    (getUBDKeyFromValIndexKey (getUBDByValIndexKey (List.replicate 20 1) (List.replicate 20 2)) =
        some (getUBDKey (List.replicate 20 1) (List.replicate 20 2)) ∧
      getREDKeyFromValSrcIndexKey (getREDByValSrcIndexKey (List.replicate 20 1)
        (List.replicate 20 2) (List.replicate 20 3)) =
          some (getREDKey (List.replicate 20 1) (List.replicate 20 2) (List.replicate 20 3)) ∧
      getREDKeyFromValDstIndexKey (getREDByValDstIndexKey (List.replicate 20 1)
        (List.replicate 20 2) (List.replicate 20 3)) =
          some (getREDKey (List.replicate 20 1) (List.replicate 20 2) (List.replicate 20 3))) ∧
    ((formatTimeBytes ⟨0, 0, by decide⟩ < formatTimeBytes ⟨1, 0, by decide⟩ ↔
        Time.before ⟨0, 0, by decide⟩ ⟨1, 0, by decide⟩) ∧
      parseTimeBytes (formatTimeBytes ⟨0, 0, by decide⟩) = .ok ⟨0, 0, by decide⟩) :=
  ⟨storeKeys_sortable.1 (List.replicate 20 1) (List.replicate 20 2) newValidator newValidator
      (by decide) (by decide) (by decide) (by decide) (by decide) (by decide),
    storeKeys_sortable.2.1 (List.replicate 20 1) (List.replicate 20 2) (List.replicate 20 2)
      (List.replicate 20 3) (by decide) (by decide) (by decide) (by decide),
    storeKeys_sortable.2.2 ⟨0, 0, by decide⟩ ⟨1, 0, by decide⟩ (by decide) (by decide)⟩

/-- The power key writes `TokensToConsensusPower` of the tokens, not `ConsensusPower`: an unbonded
validator with five units of power in tokens has consensus power 0 and a key above a bonded
validator of power 1. And a negative power wraps: `-1` is written as `2^64 - 1`, above power 0. -/
theorem powerRank_consensusPower_counter :
    (∃ ka kb, getValidatorsByPowerIndexKey (List.replicate 20 1)
        { newValidator with tokens := ⟨5000000, by decide⟩ } = some ka ∧
      getValidatorsByPowerIndexKey (List.replicate 20 1)
        { newValidator with status := .bonded, tokens := ⟨1000000, by decide⟩ } = some kb ∧
      kb < ka ∧
      ({ newValidator with tokens := ⟨5000000, by decide⟩ } :
        Validator).consensusPower = some 0 ∧
      ({ newValidator with status := .bonded, tokens := ⟨1000000, by decide⟩ } :
        Validator).consensusPower = some 1) ∧
    (∃ ka kb, getValidatorsByPowerIndexKey (List.replicate 20 1)
        { newValidator with status := .bonded, tokens := ⟨-1000000, by decide⟩ } = some ka ∧
      getValidatorsByPowerIndexKey (List.replicate 20 1)
        { newValidator with status := .bonded } = some kb ∧
      kb < ka ∧
      ({ newValidator with status := .bonded, tokens := ⟨-1000000, by decide⟩ } :
        Validator).consensusPower = some (-1) ∧
      ({ newValidator with status := .bonded } : Validator).consensusPower = some 0) :=
  ⟨⟨_, _, rfl, rfl, by decide, by decide, by decide⟩,
    ⟨_, _, rfl, rfl, by decide, by decide, by decide⟩⟩

end Barkis.Staking
