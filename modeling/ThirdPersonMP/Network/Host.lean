import Mathlib.Algebra.Group.Int.Defs
import Mathlib.Algebra.Group.Nat.Defs
import Mathlib.Data.List.Basic
import Mathlib.Data.List.TakeWhile
import Mathlib.Data.Int.Notation
import Mathlib.Tactic.Common

/-!
# Where a session connects to

`UMgrMessage::Connect` takes a host as text. `InternalConnectFunc` splits it at its last colon
and takes the number behind it for the port (`MgrMessage.cpp`, 100–112); `FTCPSocket::Connect`
writes the two into the name of the thread it starts (`TcpSocket.cpp`, 60–63). The characters
of an `FString` are a list, and the sizes and indices are `int32`, of strings of a length that
fits.

* `internalConnectFunc_eq_iff` — what the host is split into, for every text.
* `atoi_printInt32` — a port is read back from what is written for it.
* `internalConnectFunc_threadName` — the name of a thread says where it connects to: read as a
  host it gives the same address and port, and different ones have different names.
-/

namespace ThirdPersonMP.Network

/-- `FString`. -/
abbrev FString := List Char

/-! ### Strings of the engine -/

/-- `FString::FindLastChar`: the index of the last `c`. -/
def findLastChar (c : Char) : FString → Option ℕ
  | [] => none
  | d :: s =>
    match findLastChar c s with
    | some index => some (index + 1)
    | none => if d = c then some 0 else none

/-- `FString::Left`: the first `count` characters, `count` clamped to the string. -/
def left (s : FString) (count : ℤ) : FString := s.take (max 0 (min count s.length)).toNat

/-- `FString::Right`: the last `count` characters, `count` clamped to the string. -/
def right (s : FString) (count : ℤ) : FString :=
  s.drop (s.length - (max 0 (min count s.length)).toNat)

/-- `isspace`. -/
def isSpace (c : Char) : Bool := c = ' ' || ('\t'.toNat ≤ c.toNat && c.toNat ≤ '\r'.toNat)

/-- The number that the digits in front make up. -/
def digitsValue (s : FString) : ℕ := Nat.ofDigitChars 10 (s.takeWhile Char.isDigit) 0

/-- The same after a sign, if there is one. -/
def signedValue : FString → ℤ
  | '-' :: digits => -(digitsValue digits : ℤ)
  | '+' :: digits => digitsValue digits
  | digits => digitsValue digits

/-- `FCString::Atoi`: blanks, a sign, digits, and whatever follows; `none` when the number does
not fit in an `int32`, for which the result is not defined. -/
def atoi (s : FString) : Option ℤ :=
  let number := signedValue (s.dropWhile isSpace)
  if -2 ^ 31 ≤ number ∧ number < 2 ^ 31 then some number else none

/-- `%d`. -/
def printInt32 : ℤ → FString
  | .ofNat n => Nat.toDigits 10 n
  | .negSucc n => '-' :: Nat.toDigits 10 (n + 1)

/-! ### The source -/

/-- `InternalConnectFunc` (100–112): the arguments of `TCPSocketPtr->Connect`. -/
def internalConnectFunc (host : FString) : FString × Option ℤ :=
  let index : ℤ :=
    match findLastChar ':' host with
    | some index => index
    | none => -1
  (left host index, atoi (right host (host.length - index - 1)))

/-- `FString::Printf(TEXT("TCPSocket_Thread_%s:%d"), *IP, Port)` (61–63). -/
def threadName (ip : FString) (port : ℤ) : FString :=
  "TCPSocket_Thread_".toList ++ (ip ++ ':' :: printInt32 port)

/-! ### The split -/

theorem findLastChar_eq_none {c : Char} {s : FString} (h : c ∉ s) : findLastChar c s = none := by
  induction s with
  | nil => rfl
  | cons d s ih =>
    rw [List.mem_cons, not_or] at h
    rw [findLastChar, ih h.2]
    exact if_neg (Ne.symm h.1)

theorem findLastChar_append {c : Char} (l : FString) {r : FString} (h : c ∉ r) :
    findLastChar c (l ++ c :: r) = some l.length := by
  induction l with
  | nil =>
    rw [List.nil_append, findLastChar, findLastChar_eq_none h]
    exact if_pos rfl
  | cons d l ih =>
    rw [List.cons_append, findLastChar, ih, List.length_cons]

/-- A text with a colon, and the last one. -/
theorem exists_last_of_mem {c : Char} {s : FString} (h : c ∈ s) :
    ∃ l r, s = l ++ c :: r ∧ c ∉ r := by
  induction s with
  | nil => cases h
  | cons d s ih =>
    by_cases hs : c ∈ s
    · obtain ⟨l, r, rfl, hr⟩ := ih hs
      exact ⟨d :: l, r, rfl, hr⟩
    · rcases List.mem_cons.mp h with rfl | h
      · exact ⟨[], s, rfl, hs⟩
      · exact absurd h hs

theorem internalConnectFunc_append (ip : FString) {text : FString} (h : ':' ∉ text) :
    internalConnectFunc (ip ++ ':' :: text) = (ip, atoi text) := by
  have hleft : left (ip ++ ':' :: text) ip.length = ip := by
    refine List.take_left' ?_
    simp only [List.length_append, List.length_cons]
    omega
  have hright : right (ip ++ ':' :: text)
      ((ip ++ ':' :: text).length - (ip.length : ℤ) - 1) = text := by
    unfold right
    rw [List.append_cons]
    refine List.drop_left' ?_
    simp only [List.length_append, List.length_cons, List.length_nil]
    omega
  simp only [internalConnectFunc, findLastChar_append ip h, hleft, hright]

theorem internalConnectFunc_of_not_mem {host : FString} (h : ':' ∉ host) :
    internalConnectFunc host = ([], atoi host) := by
  have hleft : left host (-1) = [] := by
    unfold left
    rw [show (max 0 (min (-1) (host.length : ℤ))).toNat = 0 by omega, List.take_zero]
  have hright : right host (host.length - -1 - 1) = host := by
    unfold right
    rw [show host.length - (max 0 (min ((host.length : ℤ) - -1 - 1) host.length)).toNat = 0 by
      omega, List.drop_zero]
  simp only [internalConnectFunc, findLastChar_eq_none h, hleft, hright]

/-- **What a host is split into**: a host with a colon is split at the last one; a host
without one has an empty address, and is itself read as the port. -/
theorem internalConnectFunc_eq_iff {host ip : FString} {port : Option ℤ} :
    internalConnectFunc host = (ip, port) ↔
      (∃ text, ':' ∉ text ∧ host = ip ++ ':' :: text ∧ atoi text = port) ∨
        ':' ∉ host ∧ ip = [] ∧ atoi host = port := by
  constructor
  · intro h
    by_cases hmem : ':' ∈ host
    · obtain ⟨l, text, rfl, htext⟩ := exists_last_of_mem hmem
      rw [internalConnectFunc_append l htext, Prod.mk.injEq] at h
      exact .inl ⟨text, htext, by rw [h.1], h.2⟩
    · rw [internalConnectFunc_of_not_mem hmem, Prod.mk.injEq] at h
      exact .inr ⟨hmem, h.1.symm, h.2⟩
  · rintro (⟨text, htext, rfl, rfl⟩ | ⟨hmem, rfl, rfl⟩)
    · exact internalConnectFunc_append ip htext
    · exact internalConnectFunc_of_not_mem hmem

/-! ### The port -/

theorem isDigit_toDigits {n : ℕ} {c : Char} (h : c ∈ Nat.toDigits 10 n) : c.isDigit = true :=
  Nat.isDigit_of_mem_toDigits (by decide) (by decide) h

theorem digitsValue_toDigits (n : ℕ) : digitsValue (Nat.toDigits 10 n) = n := by
  have hall : (Nat.toDigits 10 n).takeWhile Char.isDigit = Nat.toDigits 10 n :=
    List.takeWhile_eq_self_iff.mpr fun _ => isDigit_toDigits
  rw [digitsValue, hall, Nat.ofDigitChars_ten_toDigits]

/-- Neither a blank nor a sign is a digit. -/
theorem not_isSpace_of_isDigit {c : Char} (h : c.isDigit = true) :
    isSpace c = false ∧ c ≠ '-' ∧ c ≠ '+' := by
  have hdigit : 48 ≤ c.toNat := by
    rw [Char.isDigit, Bool.and_eq_true, decide_eq_true_eq] at h
    exact UInt32.le_iff_toNat_le.mp h.1
  have hne : ∀ d : Char, d.toNat < 48 → c ≠ d := by
    rintro d hd rfl
    omega
  refine ⟨?_, hne _ (by decide), hne _ (by decide)⟩
  have hblank := hne ' ' (by decide)
  have hcontrol : ¬ ('\t'.toNat ≤ c.toNat ∧ c.toNat ≤ '\r'.toNat) := by
    rintro ⟨-, hle⟩
    exact absurd (hdigit.trans hle) (by decide)
  rw [isSpace, Bool.or_eq_false_iff, decide_eq_false_iff_not]
  refine ⟨hblank, ?_⟩
  rwa [← Bool.not_eq_true, Bool.and_eq_true, decide_eq_true_eq, decide_eq_true_eq]

/-- A port is read back from what is written for it. -/
theorem atoi_printInt32 {z : ℤ} (hlo : -2 ^ 31 ≤ z) (hhi : z < 2 ^ 31) :
    atoi (printInt32 z) = some z := by
  have hvalue : signedValue ((printInt32 z).dropWhile isSpace) = z := by
    cases z with
    | ofNat n =>
      obtain ⟨d, digits, hd⟩ :=
        List.exists_cons_of_ne_nil (Nat.toDigits_ne_nil (b := 10) (n := n))
      have hdigit : d.isDigit = true := by
        refine isDigit_toDigits (n := n) ?_
        rw [hd]
        exact List.mem_cons_self ..
      obtain ⟨hspace, hminus, hplus⟩ := not_isSpace_of_isDigit hdigit
      rw [printInt32, hd, List.dropWhile_cons_of_neg (by simp [hspace])]
      have hsigned : signedValue (d :: digits) = digitsValue (d :: digits) := by
        simp [signedValue, hminus, hplus]
      rw [hsigned, ← hd, digitsValue_toDigits]
      rfl
    | negSucc n =>
      rw [printInt32, List.dropWhile_cons_of_neg (by decide), signedValue, digitsValue_toDigits]
      rfl
  simp only [atoi, hvalue]
  exact if_pos ⟨hlo, hhi⟩

/-- What is read is an `int32`. -/
theorem le_and_lt_of_atoi {s : FString} {z : ℤ} (h : atoi s = some z) :
    -2 ^ 31 ≤ z ∧ z < 2 ^ 31 := by
  simp only [atoi, Option.ite_none_right_eq_some, Option.some.injEq] at h
  obtain ⟨hfits, rfl⟩ := h
  exact hfits

/-- A port is written without a colon. -/
theorem colon_not_mem_printInt32 (z : ℤ) : ':' ∉ printInt32 z := by
  have hdigits : ∀ n, ':' ∉ Nat.toDigits 10 n := fun n hmem =>
    absurd (isDigit_toDigits hmem) (by decide)
  cases z with
  | ofNat n => exact hdigits n
  | negSucc n =>
    rw [printInt32, List.mem_cons, not_or]
    exact ⟨by decide, hdigits _⟩

/-! ### The names of the threads -/

/-- An address and a port are read back from what is written for them, also when the address
has colons in it. -/
theorem internalConnectFunc_printInt32 (ip : FString) {port : ℤ} (hlo : -2 ^ 31 ≤ port)
    (hhi : port < 2 ^ 31) : internalConnectFunc (ip ++ ':' :: printInt32 port) = (ip, some port) := by
  rw [internalConnectFunc_append ip (colon_not_mem_printInt32 port), atoi_printInt32 hlo hhi]

/-- The port is an `int32`, whichever way it was read. -/
theorem le_and_lt_of_internalConnectFunc {host ip : FString} {port : ℤ}
    (h : internalConnectFunc host = (ip, some port)) : -2 ^ 31 ≤ port ∧ port < 2 ^ 31 := by
  rcases internalConnectFunc_eq_iff.mp h with ⟨_, -, -, hport⟩ | ⟨-, -, hport⟩
  · exact le_and_lt_of_atoi hport
  · exact le_and_lt_of_atoi hport

/-- The name of a thread, without what all names begin with. -/
theorem drop_threadName {host ip : FString} {port : ℤ}
    (h : internalConnectFunc host = (ip, some port)) :
    internalConnectFunc ((threadName ip port).drop "TCPSocket_Thread_".length) =
      (ip, some port) := by
  obtain ⟨hlo, hhi⟩ := le_and_lt_of_internalConnectFunc h
  have hdrop : (threadName ip port).drop "TCPSocket_Thread_".length =
      ip ++ ':' :: printInt32 port := List.drop_left' String.length_toList
  rw [hdrop, internalConnectFunc_printInt32 ip hlo hhi]

/-- **The name of a thread says where it connects to**, whatever the text of the host was: what
follows `TCPSocket_Thread_` is a host with the same address and port, and a thread that
connects to another address or port has another name. -/
theorem internalConnectFunc_threadName {host ip : FString} {port : ℤ}
    (h : internalConnectFunc host = (ip, some port)) :
    internalConnectFunc ((threadName ip port).drop "TCPSocket_Thread_".length) = (ip, some port) ∧
      ∀ {host' ip' : FString} {port' : ℤ}, internalConnectFunc host' = (ip', some port') →
        (threadName ip' port' = threadName ip port ↔ ip' = ip ∧ port' = port) := by
  refine ⟨drop_threadName h, fun h' => ⟨fun hname => ?_, fun hsame => by rw [hsame.1, hsame.2]⟩⟩
  have heq := drop_threadName h'
  rw [hname, drop_threadName h, Prod.mk.injEq, Option.some.injEq] at heq
  exact ⟨heq.1.symm, heq.2.symm⟩

/-- The host that `Initialize` connects to (143). -/
theorem internalConnectFunc_threadName_initialize :
    internalConnectFunc "172.26.25.15:9981".toList = ("172.26.25.15".toList, some 9981) ∧
      internalConnectFunc ((threadName "172.26.25.15".toList 9981).drop
        "TCPSocket_Thread_".length) = ("172.26.25.15".toList, some 9981) := by
  have h : internalConnectFunc "172.26.25.15:9981".toList = ("172.26.25.15".toList, some 9981) := by
    decide
  exact ⟨h, (internalConnectFunc_threadName h).1⟩

end ThirdPersonMP.Network
