/-
Rafka/Net.lean

The text of network addresses.

An IP address is displayed the way `std::net` displays it: an IPv4 address as four
decimal numbers, an IPv6 address as hexadecimal groups in which the longest run of
zeroes is abbreviated, or with an IPv4 address at the end if it is a mapped one.

`SocketAddr.parse` is the parser of `std::net`.  A parser takes the characters that are
left and fails without a trace, which is what `read_atomically` is for.  The parser reads
an IPv4 address with a port, or an IPv6 address *in brackets* with a port.

Main results: the text of an IPv4 address followed by a port is read back
(`SocketAddr.parse_v4`), and the text of an IPv6 address followed by a port is not read at all
(`SocketAddr.parse_v6`), since it lacks the brackets.
-/
import Rafka.Mesh

namespace Rafka

namespace Net

/-! ### Octets and segments -/

/-- `Ipv4Addr::octets`. -/
def octets (ip : BitVec 32) : List Nat :=
  [ip.toNat / 2 ^ 24, ip.toNat / 2 ^ 16 % 2 ^ 8, ip.toNat / 2 ^ 8 % 2 ^ 8, ip.toNat % 2 ^ 8]

/-- `Ipv6Addr::segments`. -/
def segments (ip : BitVec 128) : List Nat :=
  (List.range 8).map fun i => ip.toNat / 2 ^ (16 * (7 - i)) % 2 ^ 16

/-- The number with the given digits, the first one most significant. -/
def ofGroups (base : Nat) (groups : List Nat) : Nat :=
  groups.foldl (fun n group => n * base + group) 0

/-! ### Display -/

/-- The text of an IPv4 address. -/
def displayV4 (ip : BitVec 32) : List Char :=
  ['.'].intercalate ((octets ip).map (Nat.toDigits 10))

/-- A part of an IPv6 address: groups with colons between them. -/
def displayGroups : List Nat → List Char
  | [] => []
  | first :: tail => Nat.toDigits 16 first ++ tail.flatMap fun segment => ':' :: Nat.toDigits 16 segment

/-- A run of zeroes. -/
structure Span where
  start : Nat
  len : Nat
deriving DecidableEq

/-- The longest run of zeroes, the first such: the longest one and the current one are
followed through the segments. -/
def longestZeroes (segments : List Nat) : Span :=
  (segments.zipIdx.foldl
    (fun (s : Span × Span) entry =>
      if entry.1 = 0 then
        let current : Span :=
          { start := if s.2.len = 0 then entry.2 else s.2.start, len := s.2.len + 1 }
        (if s.1.len < current.len then current else s.1, current)
      else (s.1, ⟨0, 0⟩))
    (⟨0, 0⟩, ⟨0, 0⟩)).1

/-- The text of an IPv6 address. -/
def displayV6 (ip : BitVec 128) : List Char :=
  if (segments ip).take 6 = [0, 0, 0, 0, 0, 0xffff] then
    "::ffff:".toList ++ displayV4 (ip.truncate 32)
  else
    let zeroes := longestZeroes (segments ip)
    if 1 < zeroes.len then
      displayGroups ((segments ip).take zeroes.start) ++
        (':' :: ':' :: displayGroups ((segments ip).drop (zeroes.start + zeroes.len)))
    else displayGroups (segments ip)

end Net

/-- `IpAddr::to_string`. -/
def IpAddr.display : IpAddr → String
  | .v4 ip => String.ofList (Net.displayV4 ip)
  | .v6 ip => String.ofList (Net.displayV6 ip)

/-! ### The parser -/

namespace Net

/-- A parser of the characters that are left. -/
abbrev Parser := StateT (List Char) Option

/-- `char::to_digit`. -/
def toDigit (radix : Nat) (c : Char) : Option Nat :=
  let digit :=
    if c.isDigit then c.toNat - '0'.toNat
    else if 'a' ≤ c ∧ c ≤ 'z' then c.toNat - 'a'.toNat + 10
    else if 'A' ≤ c ∧ c ≤ 'Z' then c.toNat - 'A'.toNat + 10
    else radix
  if digit < radix then some digit else none

/-- `read_given_char`. -/
def readGivenChar (target : Char) : Parser Unit
  | [] => none
  | c :: rest => if c = target then some ((), rest) else none

/-- `read_separator`. -/
def readSeparator {α : Type} (sep : Char) (index : Nat) (inner : Parser α) : Parser α := do
  if 0 < index then readGivenChar sep
  inner

/-- The loop of `read_number`: the result so far, the number of digits, and what is left.
It gives up when a result or a number of digits does not fit. -/
def readDigits (radix : Nat) (fits : Nat → Nat → Bool) :
    Nat → Nat → List Char → Option (Nat × Nat × List Char)
  | result, digitCount, [] => some (result, digitCount, [])
  | result, digitCount, c :: rest =>
      match toDigit radix c with
      | none => some (result, digitCount, c :: rest)
      | some digit =>
          if fits (result * radix + digit) (digitCount + 1) then
            readDigits radix fits (result * radix + digit) (digitCount + 1) rest
          else none

/-- Whether the loop goes on: with `maxDigits` the digits are counted, otherwise the result
is compared with the greatest number. -/
def fitsNumber (limit : Nat) (maxDigits : Option Nat) (result digitCount : Nat) : Bool :=
  match maxDigits with
  | some maxDigits => digitCount ≤ maxDigits
  | none => result ≤ limit

/-- `read_number`, for numbers up to `limit`. -/
def readNumber (radix limit : Nat) (maxDigits : Option Nat) (allowZeroPrefix : Bool) :
    Parser Nat := fun s => do
  let (result, digitCount, rest) ← readDigits radix (fitsNumber limit maxDigits) 0 0 s
  if digitCount = 0 then none
  else if allowZeroPrefix = false ∧ s.head? = some '0' ∧ 1 < digitCount then none
  else if result ≤ limit then some (result, rest)
  else none

/-- `read_ipv4_addr`. -/
def readIpv4Addr : Parser (BitVec 32) := do
  let one ← readSeparator '.' 0 (readNumber 10 255 (some 3) false)
  let two ← readSeparator '.' 1 (readNumber 10 255 (some 3) false)
  let three ← readSeparator '.' 2 (readNumber 10 255 (some 3) false)
  let four ← readSeparator '.' 3 (readNumber 10 255 (some 3) false)
  pure (BitVec.ofNat 32 (ofGroups (2 ^ 8) [one, two, three, four]))

/-- `read_groups`: what remains of the slots to fill, and the index of the first of them.
Returns the groups, and whether they end in an IPv4 address. -/
def readGroups : Nat → Nat → List Char → (List Nat × Bool) × List Char
  | 0, _, s => (([], false), s)
  | left + 1, i, s =>
      match if 0 < left then readSeparator ':' i readIpv4Addr s else none with
      | some (v4Addr, rest) =>
          (([v4Addr.toNat / 2 ^ 16, v4Addr.toNat % 2 ^ 16], true), rest)
      | none =>
          match readSeparator ':' i (readNumber 16 65535 (some 4) true) s with
          | none => (([], false), s)
          | some (group, rest) =>
              let result := readGroups left (i + 1) rest
              ((group :: result.1.1, result.1.2), result.2)

/-- `read_ipv6_addr`. -/
def readIpv6Addr : Parser (BitVec 128) := fun s =>
  let ((head, headIpv4), rest) := readGroups 8 0 s
  if head.length = 8 then some (BitVec.ofNat 128 (ofGroups (2 ^ 16) head), rest)
  -- an IPv4 part is not allowed before `::`
  else if headIpv4 then none
  else do
    let ((), rest) ← readGivenChar ':' rest
    let ((), rest) ← readGivenChar ':' rest
    -- the `::` stands for at least one group
    let ((tail, _), rest) := readGroups (8 - (head.length + 1)) 0 rest
    let zeroes := List.replicate (8 - head.length - tail.length) 0
    some (BitVec.ofNat 128 (ofGroups (2 ^ 16) (head ++ zeroes ++ tail)), rest)

/-- `read_port`. -/
def readPort : Parser UInt16 := do
  readGivenChar ':'
  let port ← readNumber 10 65535 none true
  pure (UInt16.ofNat port)

/-- `read_scope_id`. -/
def readScopeId : Parser UInt32 := do
  readGivenChar '%'
  let scopeId ← readNumber 10 4294967295 none true
  pure (UInt32.ofNat scopeId)

/-- `read_socket_addr_v4`. -/
def readSocketAddrV4 : Parser SocketAddr := do
  let ip ← readIpv4Addr
  let port ← readPort
  pure (.v4 ip port)

/-- `read_socket_addr_v6`. -/
def readSocketAddrV6 : Parser SocketAddr := do
  readGivenChar '['
  let ip ← readIpv6Addr
  let scopeId ← fun s => some ((readScopeId s).getD (0, s))
  readGivenChar ']'
  let port ← readPort
  pure (.v6 ip port 0 scopeId)

/-- `read_socket_addr`. -/
def readSocketAddr : Parser SocketAddr := fun s =>
  (readSocketAddrV4 s).or (readSocketAddrV6 s)

end Net

/-- `SocketAddr::from_str`: nothing may be left. -/
def SocketAddr.parse (s : String) : Option SocketAddr :=
  match Net.readSocketAddr s.toList with
  | some (address, []) => some address
  | _ => none

namespace Net

/-! ### Reading a number back -/

variable {f : Nat → Nat → Bool} {rest : List Char}

theorem toDigit_digitChar {d : Nat} (h : d < 10) : toDigit 10 d.digitChar = some d := by
  revert d
  decide

/-- The loop reads the digits of a number, as long as what it reads fits. -/
theorem readDigits_toDigits (n : Nat)
    (h : ∀ k ≤ n, ∀ c ≤ (Nat.toDigits 10 n).length, f k c = true) (rest : List Char) :
    readDigits 10 f 0 0 (Nat.toDigits 10 n ++ rest) =
      readDigits 10 f n (Nat.toDigits 10 n).length rest := by
  induction n using Nat.strong_induction_on generalizing rest with
  | _ n ih =>
      by_cases hsmall : n < 10
      · rw [Nat.toDigits_of_lt_base hsmall] at h ⊢
        have hfits := h n (Nat.le_refl n) 1 (Nat.le_refl 1)
        simp only [List.singleton_append, readDigits, toDigit_digitChar hsmall, Nat.zero_mul,
          Nat.zero_add, hfits, if_true, List.length_singleton]
      · rw [Nat.toDigits_of_base_le (by omega) (by omega)] at h ⊢
        rw [List.length_append, List.length_singleton] at h ⊢
        have hfits := h n (Nat.le_refl n) _ (Nat.le_refl _)
        have hdigit := toDigit_digitChar (Nat.mod_lt n (show 0 < 10 by omega))
        have hvalue : n / 10 * 10 + n % 10 = n := Nat.div_add_mod' n 10
        rw [List.append_assoc, List.singleton_append,
          ih (n / 10) (by omega) fun k hk c hc => h k (by omega) c (by omega)]
        simp only [readDigits, hdigit, hvalue, hfits, if_true]

theorem readDigits_stop {result digitCount : Nat} {radix : Nat}
    (hrest : ∀ c ∈ rest.head?, toDigit radix c = none) :
    readDigits radix f result digitCount rest = some (result, digitCount, rest) := by
  cases rest with
  | nil => rfl
  | cons c rest => simp only [readDigits, hrest c rfl]

/-- Only zero starts with a zero. -/
theorem head_toDigits_ne_zero {n : Nat} (h : (Nat.toDigits 10 n).head? = some '0') : n = 0 := by
  induction n using Nat.strong_induction_on with
  | _ n ih =>
      by_cases hsmall : n < 10
      · rw [Nat.toDigits_of_lt_base hsmall] at h
        exact Nat.digitChar_eq_zero.mp (Option.some.inj h)
      · rw [Nat.toDigits_of_base_le (by omega) (by omega),
          List.head?_append_of_ne_nil _ Nat.toDigits_ne_nil] at h
        have hzero := ih (n / 10) (by omega) h
        omega

theorem readNumber_toDigits {n limit : Nat} {maxDigits : Option Nat} {allowZeroPrefix : Bool}
    (hn : n ≤ limit) (hmax : ∀ k ∈ maxDigits, (Nat.toDigits 10 n).length ≤ k)
    (hrest : ∀ c ∈ rest.head?, toDigit 10 c = none) :
    readNumber 10 limit maxDigits allowZeroPrefix (Nat.toDigits 10 n ++ rest) = some (n, rest) := by
  have hread := readDigits_toDigits (f := fitsNumber limit maxDigits) n (by
    intro k hk c hc
    cases maxDigits with
    | none => exact decide_eq_true (Nat.le_trans hk hn)
    | some maxDigits => exact decide_eq_true (Nat.le_trans hc (hmax maxDigits rfl))) rest
  have hpos : (Nat.toDigits 10 n).length ≠ 0 := Nat.ne_of_gt Nat.length_toDigits_pos
  have hprefix : ¬ (allowZeroPrefix = false ∧ (Nat.toDigits 10 n ++ rest).head? = some '0' ∧
      1 < (Nat.toDigits 10 n).length) := by
    rintro ⟨-, hzero, hlong⟩
    rw [List.head?_append_of_ne_nil _ Nat.toDigits_ne_nil] at hzero
    rw [head_toDigits_ne_zero hzero] at hlong
    simp at hlong
  simp only [readNumber, hread, readDigits_stop hrest, Option.bind_eq_bind, Option.bind_some, hpos,
    hprefix, hn, if_false, if_true]

/-! ### IPv4 -/

theorem octets_lt (ip : BitVec 32) : ∀ n ∈ octets ip, n < 256 := by
  have hlt := ip.isLt
  intro n hn
  simp only [octets, List.mem_cons, List.not_mem_nil, or_false] at hn
  rcases hn with rfl | rfl | rfl | rfl <;> omega

theorem ofGroups_octets (ip : BitVec 32) : ofGroups (2 ^ 8) (octets ip) = ip.toNat := by
  have hlt := ip.isLt
  simp only [ofGroups, octets, List.foldl_cons, List.foldl_nil]
  omega

/-- A number of an IPv4 address, up to the next character. -/
theorem readNumber_octet {n : Nat} (hn : n < 256) (hrest : ∀ c ∈ rest.head?, toDigit 10 c = none) :
    readNumber 10 255 (some 3) false (Nat.toDigits 10 n ++ rest) = some (n, rest) := by
  refine readNumber_toDigits (by omega) (fun k hk => ?_) hrest
  cases hk
  exact (Nat.length_toDigits_le_iff (by omega) (by omega)).mpr (by omega)

theorem displayV4_append (ip : BitVec 32) (rest : List Char) :
    displayV4 ip ++ rest =
      Nat.toDigits 10 (ip.toNat / 2 ^ 24) ++ '.' ::
        (Nat.toDigits 10 (ip.toNat / 2 ^ 16 % 2 ^ 8) ++ '.' ::
          (Nat.toDigits 10 (ip.toNat / 2 ^ 8 % 2 ^ 8) ++ '.' ::
            (Nat.toDigits 10 (ip.toNat % 2 ^ 8) ++ rest))) := by
  simp [displayV4, octets, List.intercalate, List.intersperse]

theorem bind_apply {α β : Type} (x : Parser α) (g : α → Parser β) (s : List Char) :
    (x >>= g) s = (x s).bind fun p => g p.1 p.2 := rfl

theorem readSeparator_zero {α : Type} (sep : Char) (inner : Parser α) (s : List Char) :
    readSeparator sep 0 inner s = inner s := rfl

theorem readSeparator_succ {α : Type} (sep : Char) (i : Nat) (inner : Parser α) (s : List Char) :
    readSeparator sep (i + 1) inner (sep :: s) = inner s := by
  simp [readSeparator, bind_apply, readGivenChar]

theorem readIpv4Addr_display (ip : BitVec 32) (hrest : ∀ c ∈ rest.head?, toDigit 10 c = none) :
    readIpv4Addr (displayV4 ip ++ rest) = some (ip, rest) := by
  have hlt := octets_lt ip
  have hvalue := ofGroups_octets ip
  simp only [octets, List.mem_cons, List.not_mem_nil, or_false, forall_eq_or_imp, forall_eq]
    at hlt hvalue
  obtain ⟨hone, htwo, hthree, hfour⟩ := hlt
  have hdot : ∀ l : List Char, ∀ c ∈ ('.' :: l).head?, toDigit 10 c = none := by
    rintro l c hc
    cases hc
    decide
  rw [displayV4_append, readIpv4Addr]
  simp only [bind_apply, readSeparator_zero, readSeparator_succ, readNumber_octet hone (hdot _),
    readNumber_octet htwo (hdot _), readNumber_octet hthree (hdot _),
    readNumber_octet hfour hrest, Option.bind_some, hvalue]
  rw [BitVec.ofNat_toNat, BitVec.setWidth_eq]
  rfl

theorem readPort_toDigits (port : UInt16) :
    readPort (':' :: Nat.toDigits 10 port.toNat) = some (port, []) := by
  have hread : readNumber 10 65535 none true (Nat.toDigits 10 port.toNat) =
      some (port.toNat, []) := by
    have hlt := port.toNat_lt
    have hnumber : readNumber 10 65535 none true (Nat.toDigits 10 port.toNat ++ []) =
        some (port.toNat, []) :=
      readNumber_toDigits (by omega) (fun k hk => by cases hk) (fun c hc => by cases hc)
    rwa [List.append_nil] at hnumber
  simp only [readPort, bind_apply, readGivenChar, if_true, Option.bind_some, hread,
    UInt16.ofNat_toNat]
  rfl

/-! ### IPv6 -/

/-- What a number leaves comes after digits. -/
theorem readDigits_suffix {radix result digitCount : Nat} {s : List Char} {r : Nat × Nat}
    (h : readDigits radix f result digitCount s = some (r.1, r.2, rest)) :
    ∃ digits, s = digits ++ rest ∧ ∀ c ∈ digits, toDigit radix c ≠ none := by
  induction s generalizing result digitCount with
  | nil =>
      cases h
      exact ⟨[], rfl, fun c hc => absurd hc List.not_mem_nil⟩
  | cons c s ih =>
      rw [readDigits] at h
      split at h
      · cases h
        exact ⟨[], rfl, fun c hc => absurd hc List.not_mem_nil⟩
      · rename_i digit hdigit
        split at h
        · obtain ⟨digits, rfl, hdigits⟩ := ih h
          refine ⟨c :: digits, rfl, fun c' hc' => ?_⟩
          rcases List.mem_cons.mp hc' with rfl | hrest
          · rw [hdigit]
            exact Option.some_ne_none digit
          · exact hdigits c' hrest
        · cases h

theorem readNumber_suffix {radix limit n : Nat} {maxDigits : Option Nat} {allowZeroPrefix : Bool}
    {s : List Char} (h : readNumber radix limit maxDigits allowZeroPrefix s = some (n, rest)) :
    ∃ digits, s = digits ++ rest ∧ ∀ c ∈ digits, toDigit radix c ≠ none := by
  obtain ⟨⟨result, digitCount, rest'⟩, hread, hchecks⟩ := Option.bind_eq_some_iff.mp h
  have hrest : rest' = rest := by
    dsimp only at hchecks
    split at hchecks
    · cases hchecks
    · split at hchecks
      · cases hchecks
      · split at hchecks
        · cases hchecks
          rfl
        · cases hchecks
  subst hrest
  exact readDigits_suffix (r := (result, digitCount)) hread

/-- An IPv4 address has a dot before any colon. -/
theorem readIpv4Addr_colon {group : List Char} (hgroup : '.' ∉ group) (tail : List Char) :
    readIpv4Addr (group ++ ':' :: tail) = none := by
  rw [readIpv4Addr, bind_apply, readSeparator_zero]
  cases hread : readNumber 10 255 (some 3) false (group ++ ':' :: tail) with
  | none => rfl
  | some r =>
      obtain ⟨n, rest⟩ := r
      obtain ⟨digits, hsplit, hdigits⟩ := readNumber_suffix hread
      have hcolon : ':' ∉ digits := fun hc => hdigits ':' hc (by decide)
      -- the digits end within the group
      have hrest : ∃ group', '.' ∉ group' ∧ rest = group' ++ ':' :: tail := by
        rcases List.append_eq_append_iff.mp hsplit with ⟨mid, rfl, hmid⟩ | ⟨mid, rfl, hmid⟩
        · cases mid with
          | nil => exact ⟨[], List.not_mem_nil, hmid.symm⟩
          | cons c mid =>
              cases hmid
              exact absurd (List.mem_append_right _ List.mem_cons_self) hcolon
        · exact ⟨mid, fun hc => hgroup (List.mem_append_right _ hc), hmid⟩
      obtain ⟨group', hgroup', rfl⟩ := hrest
      have hdot : readGivenChar '.' (group' ++ ':' :: tail) = none := by
        cases group' with
        | nil => rfl
        | cons c group' =>
            have hne : c ≠ '.' := fun hc => hgroup' (hc ▸ List.mem_cons_self)
            exact if_neg hne
      simp [bind_apply, readSeparator, hdot]

theorem digitChar_ne {d : Nat} (h : d < 16) : d.digitChar ≠ '.' ∧ d.digitChar ≠ '[' := by
  revert d
  decide

/-- The digits of a number are neither dots nor brackets. -/
theorem toDigits_ne {n : Nat} {c : Char} (hc : c ∈ Nat.toDigits 16 n) : c ≠ '.' ∧ c ≠ '[' := by
  induction n using Nat.strong_induction_on with
  | _ n ih =>
      by_cases hsmall : n < 16
      · rw [Nat.toDigits_of_lt_base hsmall] at hc
        rw [List.mem_singleton.mp hc]
        exact digitChar_ne hsmall
      · rw [Nat.toDigits_of_base_le (by omega) (by omega)] at hc
        rcases List.mem_append.mp hc with hc | hc
        · exact ih (n / 16) (by omega) hc
        · rw [List.mem_singleton.mp hc]
          exact digitChar_ne (Nat.mod_lt n (by omega))

/-- Groups and a colon after them: the first group ends in a colon. -/
theorem displayGroups_colon (groups : List Nat) (tail : List Char) :
    ∃ group tail', displayGroups groups ++ ':' :: tail = group ++ ':' :: tail' ∧
      ∀ c ∈ group, c ≠ '.' ∧ c ≠ '[' := by
  cases groups with
  | nil => exact ⟨[], tail, rfl, fun c hc => absurd hc List.not_mem_nil⟩
  | cons first groups =>
      refine ⟨Nat.toDigits 16 first, ?_⟩
      cases groups with
      | nil => exact ⟨tail, by simp [displayGroups], fun c hc => toDigits_ne hc⟩
      | cons second groups =>
          refine ⟨Nat.toDigits 16 second ++
            groups.flatMap (fun segment => ':' :: Nat.toDigits 16 segment) ++ ':' :: tail, ?_,
            fun c hc => toDigits_ne hc⟩
          simp [displayGroups]

/-- **The text of an IPv6 address** starts with digits, perhaps none, and a colon. -/
theorem displayV6_colon (ip : BitVec 128) :
    ∃ group tail, displayV6 ip = group ++ ':' :: tail ∧ ∀ c ∈ group, c ≠ '.' ∧ c ≠ '[' := by
  unfold displayV6
  split
  · exact ⟨[], _, rfl, fun c hc => absurd hc List.not_mem_nil⟩
  · dsimp only
    split
    · exact displayGroups_colon _ _
    · -- there are eight segments, so that a second one follows the first
      obtain ⟨first, second, others, hsegments⟩ :
          ∃ first second others, segments ip = first :: second :: others := ⟨_, _, _, rfl⟩
      rw [hsegments]
      exact ⟨Nat.toDigits 16 first, Nat.toDigits 16 second ++
        others.flatMap (fun segment => ':' :: Nat.toDigits 16 segment), by simp [displayGroups],
        fun c hc => toDigits_ne hc⟩

end Net

/-! ### Addresses with ports -/

open Net

/-- **An IPv4 address and a port are read back.** -/
theorem SocketAddr.parse_v4 (ip : BitVec 32) (port : UInt16) :
    SocketAddr.parse ((IpAddr.v4 ip).display ++ ":" ++ Nat.repr port.toNat) =
      some (.v4 ip port) := by
  have hcolon : ∀ c ∈ (':' :: Nat.toDigits 10 port.toNat).head?, toDigit 10 c = none := by
    intro c hc
    cases hc
    decide
  have htext : ((IpAddr.v4 ip).display ++ ":" ++ Nat.repr port.toNat).toList =
      displayV4 ip ++ ':' :: Nat.toDigits 10 port.toNat := by
    simp [IpAddr.display]
  rw [SocketAddr.parse, htext, readSocketAddr, readSocketAddrV4]
  simp only [bind_apply, readIpv4Addr_display ip hcolon, readPort_toDigits, Option.bind_some]
  rfl

/-- **An IPv6 address and a port are not read.**  The parser wants brackets around it. -/
theorem SocketAddr.parse_v6 (ip : BitVec 128) (text : String) :
    SocketAddr.parse ((IpAddr.v6 ip).display ++ ":" ++ text) = none := by
  obtain ⟨group, tail, hdisplay, hgroup⟩ := displayV6_colon ip
  have htext : ((IpAddr.v6 ip).display ++ ":" ++ text).toList =
      group ++ ':' :: (tail ++ ':' :: text.toList) := by
    simp [IpAddr.display, hdisplay]
  have hv4 : readIpv4Addr (group ++ ':' :: (tail ++ ':' :: text.toList)) = none :=
    readIpv4Addr_colon (fun hc => (hgroup '.' hc).1 rfl) _
  have hbracket : readGivenChar '[' (group ++ ':' :: (tail ++ ':' :: text.toList)) = none := by
    cases group with
    | nil => rfl
    | cons c group => exact if_neg (hgroup c List.mem_cons_self).2
  rw [SocketAddr.parse, htext, readSocketAddr, readSocketAddrV4, readSocketAddrV6]
  simp only [bind_apply, hv4, hbracket, Option.bind_none, Option.or_none]

end Rafka
