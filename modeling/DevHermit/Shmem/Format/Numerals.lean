import DevHermit.Lib.Check
import DevHermit.Lib.Decimal

namespace DevHermit.Shmem.Format

open Lib List

inductive BootstrapFdError where
  | empty
  | nonDecimal
  | leadingZero
  | overflow
  | standardIo (fd : Int)
deriving DecidableEq

def pushDigit (parsed : Nat) (byte : UInt8) : Except BootstrapFdError Nat := do
  reject (byte < 48 ∨ 57 < byte) .nonDecimal
  reject (2 ^ 32 ≤ parsed * 10) .overflow
  let parsed := parsed * 10 + (byte - 48).toNat
  reject (2 ^ 32 ≤ parsed) .overflow
  reject (2 ^ 31 - 1 < parsed) .overflow
  return parsed

def parseBootstrapFd (value : List UInt8) : Except BootstrapFdError Int := do
  reject (value = []) .empty
  reject (1 < value.length ∧ value.head? = some 48) .leadingZero
  let parsed ← value.foldlM pushDigit 0
  let fd := Int.bmod parsed (2 ^ 32)
  reject (fd ≤ 2) (.standardIo fd)
  return fd

def digitByte (d : Nat) : UInt8 := UInt8.ofNat (48 + d)

def numeral (n : Nat) : List UInt8 := (decimalDigits n).map digitByte

theorem digitByte_isDigit {d : Nat} (h : d < 10) :
    ¬ (digitByte d < 48 ∨ 57 < digitByte d) ∧ (digitByte d - 48).toNat = d ∧
      (digitByte d).toNat - 48 = d := by
  interval_cases d <;> decide

theorem exists_digitByte {byte : UInt8} (h : ¬ (byte < 48 ∨ 57 < byte)) :
    ∃ d < 10, byte = digitByte d := by
  simp only [not_or, UInt8.not_lt, UInt8.le_iff_toNat_le] at h
  exact ⟨byte.toNat - 48, by simp at h; omega, UInt8.toNat_inj.mp (by simp [digitByte] at *; omega)⟩

theorem pushDigit_eq_ok {parsed next : Nat} {byte : UInt8} :
    pushDigit parsed byte = .ok next ↔
      ∃ d < 10, byte = digitByte d ∧ next = 10 * parsed + d ∧ next < 2 ^ 31 := by
  simp only [pushDigit, andThen_eq_ok, reject_eq_ok]
  constructor
  · rintro ⟨hdigit, -, -, hlt, hnext⟩
    obtain ⟨d, hd, rfl⟩ := exists_digitByte hdigit
    cases hnext
    rw [(digitByte_isDigit hd).2.1] at *
    exact ⟨d, hd, rfl, by omega, by omega⟩
  · rintro ⟨d, hd, rfl, hnext, hlt⟩
    obtain ⟨hdigit, hsub, -⟩ := digitByte_isDigit hd
    rw [hsub]
    exact ⟨hdigit, by omega, by omega, by omega, congrArg Except.ok (by omega)⟩

theorem le_foldl_digits (ds : List Nat) (acc : Nat) :
    acc ≤ ds.foldl (fun acc d => 10 * acc + d) acc := by
  induction ds generalizing acc with
  | nil => exact le_rfl
  | cons d ds ih => exact le_trans (by omega) (ih (10 * acc + d))

theorem foldlM_pushDigit {value : List UInt8} {parsed next : Nat} (hp : parsed < 2 ^ 31) :
    value.foldlM pushDigit parsed = .ok next ↔
      ∃ ds : List Nat, (∀ d ∈ ds, d < 10) ∧ value = ds.map digitByte ∧
        next = ds.foldl (fun acc d => 10 * acc + d) parsed ∧ next < 2 ^ 31 := by
  induction value generalizing parsed with
  | nil =>
    constructor
    · intro h
      cases h
      exact ⟨[], by simp, rfl, rfl, hp⟩
    · rintro ⟨ds, -, hds, rfl, -⟩
      cases map_eq_nil_iff.mp hds.symm
      rfl
  | cons byte rest ih =>
    rw [foldlM_cons, bind_eq_ok]
    constructor
    · rintro ⟨mid, hmid, h⟩
      obtain ⟨d, hd, rfl, rfl, hlt⟩ := pushDigit_eq_ok.mp hmid
      obtain ⟨ds, hds, rfl, hnext⟩ := (ih hlt).mp h
      exact ⟨d :: ds, forall_mem_cons.mpr ⟨hd, hds⟩, rfl, hnext⟩
    · rintro ⟨ds, hds, hvalue, hnext, hbound⟩
      cases ds with
      | nil => cases hvalue
      | cons d ds =>
        cases hvalue
        obtain ⟨hd, hds⟩ := forall_mem_cons.mp hds
        have hle := le_foldl_digits ds (10 * parsed + d)
        rw [← foldl_cons (f := fun acc d => 10 * acc + d), ← hnext] at hle
        exact ⟨_, pushDigit_eq_ok.mpr ⟨d, hd, rfl, rfl, by omega⟩,
          (ih (by omega)).mpr ⟨ds, hds, rfl, hnext, hbound⟩⟩

theorem eq_numeral {ds : List Nat} (hlt : ∀ d ∈ ds, d < 10) (hpos : ofDecimal ds ≠ 0)
    (hzero : ¬ (1 < (ds.map digitByte).length ∧ (ds.map digitByte).head? = some 48)) :
    ds.map digitByte = numeral (ofDecimal ds) := by
  match ds with
  | [] => exact (hpos rfl).elim
  | [d] => rw [numeral, decimalDigits_ofDecimal hlt (by simpa [ofDecimal] using hpos)]
  | d :: e :: ds =>
    rw [numeral, decimalDigits_ofDecimal hlt]
    rintro rfl
    exact hzero ⟨by simp, rfl⟩

theorem parseBootstrapFd_eq_ok {value : List UInt8} {fd : Int} :
    parseBootstrapFd value = .ok fd ↔
      ∃ n : Nat, 3 ≤ n ∧ n ≤ 2 ^ 31 - 1 ∧ fd = n ∧ value = numeral n := by
  have hcast : ∀ n : Nat, n < 2 ^ 31 → Int.bmod n (2 ^ 32) = n := fun n hn => by
    rw [Int.bmod_eq_of_le] <;> omega
  simp only [parseBootstrapFd, andThen_eq_ok, reject_eq_ok]
  rw [bind_eq_ok]
  simp only [andThen_eq_ok, reject_eq_ok]
  constructor
  · rintro ⟨-, hzero, parsed, hparsed, hstandard, hfd⟩
    obtain ⟨ds, hds, rfl, rfl, hlt⟩ := (foldlM_pushDigit (by decide)).mp hparsed
    rw [← ofDecimal] at *
    rw [hcast _ hlt] at hstandard hfd
    cases hfd
    exact ⟨ofDecimal ds, by omega, by omega, rfl, eq_numeral hds (by omega) hzero⟩
  · rintro ⟨n, hthree, hn, rfl, rfl⟩
    obtain ⟨d, ds, hds, hd⟩ := decimalDigits_eq_cons (n := n) (by omega)
    have hlt := decimalDigits_lt n
    have hparsed : (numeral n).foldlM pushDigit 0 = .ok n :=
      (foldlM_pushDigit (by decide)).mpr ⟨_, hlt, rfl, (ofDecimal_decimalDigits n).symm, by omega⟩
    refine ⟨by simp [numeral, hds], fun h => ?_, n, hparsed, ?_⟩
    · rw [numeral, hds] at h
      have hsub := (digitByte_isDigit (hlt d (by simp [hds]))).2.1
      rw [Option.some.inj h.2] at hsub
      exact hd hsub.symm
    · rw [hcast n (by omega)]
      exact ⟨by omega, rfl⟩

theorem bootstrap_fd_grammar_exact :
    (∀ value fd, parseBootstrapFd value = .ok fd ↔
      ∃ n : Nat, 3 ≤ n ∧ n ≤ 2 ^ 31 - 1 ∧ fd = n ∧ value = numeral n) ∧
    (∀ (value : List UInt8) parsed, value.foldlM pushDigit 0 = .ok parsed →
      parsed = ofDecimal (value.map fun byte => byte.toNat - 48) ∧ parsed < 2 ^ 32) ∧
    ∀ value other fd, parseBootstrapFd value = .ok fd → parseBootstrapFd other = .ok fd →
      value = other := by
  refine ⟨fun _ _ => parseBootstrapFd_eq_ok, fun value parsed h => ?_, fun _ _ fd h h' => ?_⟩
  · obtain ⟨ds, hds, rfl, hparsed, hlt⟩ := (foldlM_pushDigit (by decide)).mp h
    refine ⟨?_, by omega⟩
    rw [hparsed, ← ofDecimal, map_map]
    have hback : ∀ d ∈ ds, (digitByte d).toNat - 48 = d := fun d hd =>
      (digitByte_isDigit (hds d hd)).2.2
    exact congrArg ofDecimal ((map_congr_left hback).trans (map_id ds)).symm
  · obtain ⟨n, -, -, hn, rfl⟩ := parseBootstrapFd_eq_ok.mp h
    obtain ⟨m, -, -, hm, rfl⟩ := parseBootstrapFd_eq_ok.mp h'
    rw [Nat.cast_injective (hn.symm.trans hm)]

theorem descriptor_three_parsed : parseBootstrapFd (numeral 3) = .ok 3 :=
  (bootstrap_fd_grammar_exact.1 _ _).mpr ⟨3, by decide, by decide, rfl, rfl⟩

inductive DigestError where
  | message (text : String)
  | panicked
deriving DecidableEq

def ascii (text : String) : List UInt8 := text.toList.map Char.toUInt8

def hexValues : List (UInt8 × Nat) :=
  (ascii "0123456789abcdef").zipIdx ++ (ascii "ABCDEF").zipIdx 10

def toDigit (byte : UInt8) : Option Nat := hexValues.lookup byte

def pushHex (value : Nat) (byte : UInt8) : Option Nat := do
  let digit ← toDigit byte
  if 16 * value + digit < 256 then some (16 * value + digit) else none

def fromStrRadix (digits : List UInt8) : Option Nat :=
  if digits = [] ∨ digits = ascii "+" ∨ digits = ascii "-" then none
  else (if digits.head? = some 43 then digits.tail else digits).foldlM pushHex 0

def leads (byte : UInt8) : Bool := byte < 128 || 192 ≤ byte

def isCharBoundary (value : List UInt8) (index : Nat) : Bool :=
  index = 0 || index = value.length || value[index]?.any leads

def slice (value : List UInt8) (start stop : Nat) : Except DigestError (List UInt8) := do
  reject (¬ (isCharBoundary value start ∧ isCharBoundary value stop)) .panicked
  return (value.drop start).take (stop - start)

def nonHex : DigestError := .message "SHA-256 contains a non-hex digit"

def digestByte (value : List UInt8) (index : Nat) : Except DigestError Nat := do
  let digits ← slice value (index * 2) (index * 2 + 2)
  (fromStrRadix digits).elim (.error nonHex) .ok

def parseSha256 (value : List UInt8) : Except DigestError (List Nat) := do
  reject (value.length ≠ 64) (.message "SHA-256 must contain exactly 64 hex digits")
  (List.range 32).mapM (digestByte value)

def hexDigit (n : Nat) : UInt8 := (ascii "0123456789abcdef").getD n 0

def hex (bytes : List Nat) : List UInt8 :=
  bytes.flatMap fun byte => [hexDigit (byte / 16), hexDigit (byte % 16)]

def toLower (byte : UInt8) : UInt8 := if 65 ≤ byte ∧ byte ≤ 90 then byte + 32 else byte

def IsHexDigit (byte : UInt8) : Prop := byte ∈ ascii "0123456789abcdefABCDEF"
deriving Decidable

def afterGroups : List UInt8 → List UInt8
  | a :: b :: rest =>
    if (a = 43 ∨ IsHexDigit a) ∧ IsHexDigit b ∧ rest.head?.all leads then afterGroups rest
    else a :: b :: rest
  | value => value

@[mk_iff]
structure Strict (value : List UInt8) : Prop where
  ok_iff : (∃ d, parseSha256 value = .ok d) ↔ value.length = 64 ∧ ∀ byte ∈ value, IsHexDigit byte
  digest : ∀ d, parseSha256 value = .ok d → hex d = value.map toLower ∧
    d.foldl (fun n byte => 256 * n + byte) 0 =
      value.foldl (fun n byte => 16 * n + (toDigit byte).getD 0) 0
  never_panics : parseSha256 value ≠ .error .panicked

theorem toDigit_cases : ∀ byte, toDigit byte = none ∧ ¬ IsHexDigit byte ∨
    ∃ d < 16, toDigit byte = some d ∧ IsHexDigit byte ∧ hexDigit d = toLower byte ∧ leads byte ∧
      byte ≠ 43 := by
  decide +kernel

theorem fromStrRadix_pair (a b : UInt8) :
    fromStrRadix [a, b] = none ∧ ¬ ((a = 43 ∨ IsHexDigit a) ∧ IsHexDigit b) ∨
    ∃ v, fromStrRadix [a, b] = some v ∧ ((a = 43 ∨ IsHexDigit a) ∧ IsHexDigit b) ∧
      (a ≠ 43 → hex [v] = [toLower a, toLower b] ∧
        ∀ m, 256 * m + v = 16 * (16 * m + (toDigit a).getD 0) + (toDigit b).getD 0) := by
  have hfold : fromStrRadix [a, b] = (if a = 43 then [b] else [a, b]).foldlM pushHex 0 := by
    simp [fromStrRadix, ascii]
  rw [hfold]
  rcases toDigit_cases a with ⟨ha, hahex⟩ | ⟨x, hx, ha, hahex, halower, -, haplus⟩ <;>
    rcases toDigit_cases b with ⟨hb, hbhex⟩ | ⟨y, hy, hb, hbhex, hblower, -⟩
  · by_cases hplus : a = 43 <;> simp [pushHex, *]
  · by_cases hplus : a = 43
    · simp [pushHex, *]
      omega
    · simp [pushHex, *]
  · simp [pushHex, *]
  · refine .inr ⟨16 * x + y, ?_, ⟨.inr hahex, hbhex⟩, fun _ => ⟨?_, fun m => ?_⟩⟩
    · simp [pushHex, *, show x < 256 by omega, show 16 * x + y < 256 by omega]
    · rw [hex, flatMap_singleton, show (16 * x + y) / 16 = x by omega,
        show (16 * x + y) % 16 = y by omega, halower, hblower]
    · simp [*]
      omega

variable {value : List UInt8}

theorem digestByte_next {i : Nat} {a b : UInt8} {rest : List UInt8}
    (hdrop : value.drop (i * 2) = a :: b :: rest) (hb : isCharBoundary value (i * 2)) :
    value.drop ((i + 1) * 2) = rest ∧ isCharBoundary value ((i + 1) * 2) = rest.head?.all leads ∧
      digestByte value i =
        if rest.head?.all leads then (fromStrRadix [a, b]).elim (.error nonHex) .ok
        else .error .panicked := by
  have hrest : value.drop (i * 2 + 2) = rest := by rw [← drop_drop, hdrop]; rfl
  have hnext : isCharBoundary value (i * 2 + 2) = rest.head?.all leads := by
    have hlen := congrArg length hdrop
    rw [isCharBoundary, ← head?_drop, hrest]
    cases rest with
    | nil => simp [show i * 2 + 2 = value.length by simp at hlen; omega]
    | cons c rest => simp [show i * 2 + 2 ≠ value.length by simp at hlen; omega]
  rw [Nat.succ_mul]
  refine ⟨hrest, hnext, ?_⟩
  rw [digestByte, slice, hb, hnext, hdrop, Nat.add_sub_cancel_left]
  split_ifs <;> simp_all <;> rfl

theorem head?_leads (h : ∀ byte ∈ value, IsHexDigit byte) : value.head?.all leads := by
  cases value with
  | nil => rfl
  | cons byte value =>
    rcases toDigit_cases byte with ⟨-, hhex⟩ | ⟨d, -, -, -, -, hlead, -⟩
    · exact (hhex (h byte mem_cons_self)).elim
    · exact hlead

theorem mapM_digestByte {n i : Nat} {rest : List UInt8} (hdrop : value.drop (i * 2) = rest)
    (hlen : rest.length = n * 2) (hb : isCharBoundary value (i * 2)) :
    (afterGroups rest = [] ∧ ∃ d, (range' i n).mapM (digestByte value) = .ok d ∧
      (43 ∉ rest → (∀ byte ∈ rest, IsHexDigit byte) ∧ hex d = rest.map toLower ∧
        ∀ m, d.foldl (fun n byte => 256 * n + byte) m =
          rest.foldl (fun n byte => 16 * n + (toDigit byte).getD 0) m)) ∨
    afterGroups rest ≠ [] ∧ ¬ (∀ byte ∈ rest, IsHexDigit byte) ∧
      (range' i n).mapM (digestByte value) =
        .error (if (afterGroups rest)[2]?.all leads then nonHex else .panicked) := by
  induction n generalizing i rest with
  | zero =>
    cases length_eq_zero_iff.mp (hlen.trans (Nat.zero_mul 2))
    exact .inl ⟨rfl, [], rfl, by simp [hex]⟩
  | succ n ih =>
    obtain ⟨a, b, rest, rfl⟩ : ∃ a b tail, rest = a :: b :: tail := by
      match rest, hlen with
      | a :: b :: tail, _ => exact ⟨a, b, tail, rfl⟩
      | [_], h => simp at h; omega
    obtain ⟨hrest, hnext, hbyte⟩ := digestByte_next hdrop hb
    rw [range'_succ, mapM_cons, hbyte, afterGroups, forall_mem_cons, forall_mem_cons]
    by_cases hlead : rest.head?.all leads
    · rcases fromStrRadix_pair a b with ⟨hv, hgroup⟩ | ⟨v, hv, hgroup, hpair⟩
      · rw [if_pos hlead, hv, if_neg fun h => hgroup ⟨h.1, h.2.1⟩]
        refine .inr ⟨cons_ne_nil _ _, fun h => hgroup ⟨.inr h.1, h.2.1⟩, ?_⟩
        simp [← head?_eq_getElem?, hlead]
        rfl
      · rw [if_pos hlead, hv, if_pos ⟨hgroup.1, hgroup.2, hlead⟩]
        rcases ih hrest (by simp at hlen; omega) (hnext.trans hlead) with
          ⟨hafter, d, hd, htail⟩ | ⟨hafter, hhex, hd⟩
        · refine .inl ⟨hafter, v :: d, by simp [hd]; rfl, fun hplus => ?_⟩
          rw [mem_cons, mem_cons, not_or, not_or] at hplus
          obtain ⟨hlower, hvalue⟩ := hpair (Ne.symm hplus.1)
          obtain ⟨hhex, hlowers, hvalues⟩ := htail hplus.2.2
          refine ⟨⟨hgroup.1.resolve_left (Ne.symm hplus.1), hgroup.2, hhex⟩, ?_, fun m => ?_⟩
          · rw [hex, flatMap_cons, ← hex, hlowers]
            simp [hex] at hlower
            simp [hlower]
          · rw [foldl_cons, hvalues, foldl_cons, foldl_cons, hvalue]
        · exact .inr ⟨hafter, fun h => hhex h.2.2, by simp [hd]; rfl⟩
    · rw [if_neg hlead, if_neg fun h => hlead h.2.2]
      refine .inr ⟨cons_ne_nil _ _, fun h => hlead (head?_leads h.2.2), ?_⟩
      simp [← head?_eq_getElem?, hlead]
      rfl

theorem parseSha256_strict_iff (value : List UInt8) :
    Strict value ↔ (value.length = 64 →
      (afterGroups value = [] → 43 ∉ value) ∧ (afterGroups value)[2]?.all leads) := by
  rw [strict_iff]
  by_cases hlen : value.length = 64
  · have hparse : parseSha256 value = (range' 0 32).mapM (digestByte value) := by
      rw [parseSha256, reject, if_neg (not_not.mpr hlen), range_eq_range']
      rfl
    rcases mapM_digestByte (i := 0) (n := 32) (drop_zero (l := value)) hlen rfl with
      ⟨hafter, d, hd, hspec⟩ | ⟨hafter, hhex, hd⟩
    · simp [hparse, hd, hlen, hafter]
      exact ⟨fun h hplus => absurd (h.1 43 hplus) (by decide),
        fun h => ⟨(hspec h).1, (hspec h).2.1, (hspec h).2.2 0⟩⟩
    · simp only [hparse, hd, hlen, hafter, hhex]
      split_ifs with hcut <;> simp [hcut, nonHex]
  · have hparse : parseSha256 value =
        .error (.message "SHA-256 must contain exactly 64 hex digits") := by
      rw [parseSha256, reject, if_pos hlen]
      rfl
    simp [hparse, hlen]

theorem signed_digest_accepted_and_cut_character_panics :
    parseSha256 (replicate 32 (ascii "+f")).flatten = .ok (replicate 32 15) ∧
      parseSha256 ([48, 0xc3, 0xa9] ++ replicate 61 48) = .error .panicked := by
  decide +kernel

theorem zero_digest_strict : Strict (replicate 64 48) :=
  (parseSha256_strict_iff _).mpr fun _ => by decide +kernel

end DevHermit.Shmem.Format
