import Testimony.Proofs.Daemon.Filter
import Testimony.Proofs.Daemon.Ids

/-!
# `Testimony.Proofs.Daemon.Attach`: from the text of a filter to the socket

On its way from the output of `tcpdump` to `SO_ATTACH_FILTER` a program goes through 64-bit `int`s,
the fields of `struct sock_filter`, a C `int` for its length and the `unsigned short` of
`struct sock_fprog`. None of these steps checks that it keeps its numbers.

`filter_intact_iff` says for which configurations and texts the filter of a socket is the one that
was printed.
-/

set_option autoImplicit false

namespace Testimony.Daemon

open Lib

/-! ### What is printed -/

/-- The numbers in a text, of any size. -/
def printed (text : List UInt8) : List (Option Int) :=
  (scan spaces (fun _ => true) 0 [] text).map parseInt

/-- The text announces as many instructions as the program has, and then has their fields. -/
def IsPrinted (text : List UInt8) (prog : List SockFilter) : Prop :=
  (((prog.length : Int) :: intFields prog).map some) <+: printed text

/-- `compileFilter` reads the first of the numbers. -/
theorem prefix_printed {text : List UInt8} {ints : List Int} (h : readInts text = .ok ints) :
    ints.map some <+: printed text := by
  have hparse : ∀ token i, readInt token = .ok i → parseInt token = some i := by
    intro token i hi
    rw [readInt] at hi
    split at hi
    · rename_i j hj
      cases hi
      exact (Option.filter_eq_some_iff.mp hj).1
    · cases hi
  rw [← map_of_mapM_ok hparse (show (scanWords text).mapM readInt = .ok ints from h)]
  exact (scan_isPrefix fitsBuffer text 0 []).map parseInt

/-! ### What is attached -/

/-- A filter was asked for. A `newSocket` that panics is not what was asked for, and neither is a
socket without the filter. -/
def FilterIntact (text : List UInt8) : Except NewSocketError Socket → Prop
  | .ok s => (∃ len filters, .attachFilter len filters ∈ s.calls) ∧
      ∀ len filters, .attachFilter len filters ∈ s.calls →
        filters.take len.toNat ≠ [] ∧ IsPrinted text (filters.take len.toNat)
  | .error .makechan => False
  | .error .emptyFilter => False
  | .error .compileFilter => True
  | .error (.afPacket _ _) => True

/-- The numbers that are accepted are those of a program that can be attached. -/
def InRange (text : List UInt8) : Prop :=
  ∀ n fields, readInts text = .ok (n :: fields) → Announced n fields →
    1 ≤ n ∧ n < 2 ^ 16 ∧ FieldsInRange fields

/-- `AFPacket` attaches a filter exactly if it is given one, and it is that one. -/
theorem attachFilter_mem_iff {a : AFPacketArgs} {kernel : Kernel} {len : UInt16}
    {filters : List SockFilter} : .attachFilter len filters ∈ .socket :: a.allCalls kernel ↔
      a.filterSize ≠ 0 ∧ len = a.filterSize.toUInt32.toUInt16 ∧ filters = a.filters := by
  unfold AFPacketArgs.allCalls AFPacketArgs.filterCalls AFPacketArgs.fanoutCalls
  split <;> split <;> simp_all

/-- The length of a program as an `unsigned short`, by way of an `int`. -/
theorem toNat_filterLen (n : Nat) :
    (Int32.ofInt n).toUInt32.toUInt16.toNat = n % 2 ^ 16 := by
  rw [UInt32.toNat_toUInt16, toNat_toUInt32_ofInt]
  omega

/-- A program with fewer than `2 ^ 16` instructions, and at least one, is not taken for none. -/
theorem filterSize_ne_zero {n : Nat} (hpos : 0 < n) (hlt : n < 2 ^ 16) : Int32.ofInt n ≠ 0 := by
  intro hzero
  have hlen := toNat_filterLen n
  rw [hzero, Nat.mod_eq_of_lt hlt] at hlen
  exact absurd hlen.symm (Nat.ne_of_gt hpos)

/-- The program that `compileFilter` returns is the one that is used. -/
theorem filterOf_ok {sc : ConfigEntry} (hfilter : sc.filter ≠ "") {prog : List SockFilter}
    (hne : prog ≠ []) : filterOf sc (some prog) = .ok prog := by
  cases prog with
  | nil => exact absurd rfl hne
  | cons f prog => exact if_neg hfilter

/-- A kernel in which everything succeeds. -/
def willingKernel : Kernel := { quietKernel with rxRing := fun _ => none }

/-- A kernel that grants everything gives no error. -/
theorem errno_willingKernel (a : AFPacketArgs) : (afPacket willingKernel a).errno = 0 := by
  have hsetUp : ∃ ring s, a.setUp willingKernel ⟨0, [.socket]⟩ = .ok ring s := by
    unfold AFPacketArgs.setUp AFPacketArgs.setFilter AFPacketArgs.joinFanout
    split <;> split <;> exact ⟨_, _, rfl⟩
  obtain ⟨ring, s, hs⟩ := hsetUp
  have herrno := setsErrno_setUp a willingKernel ⟨0, [.socket]⟩
  rw [hs] at herrno
  unfold afPacket
  rw [hs]
  exact herrno

/-- A socket that may be made is made. -/
theorem newSocket_willingKernel {sc : ConfigEntry} (hmake : ¬ MakechanPanics sc.numBlocks)
    (hfilter : sc.filter ≠ "") {prog : List SockFilter} (hne : prog ≠ []) :
    ∃ s, newSocket willingKernel (some prog) sc 0 0 = .ok s ∧
      s.calls = .socket :: (sc.args 0 prog).allCalls willingKernel := by
  have herrno := errno_willingKernel (sc.args 0 prog)
  rw [newSocket_eq, if_neg hmake, filterOf_ok hfilter hne]
  exact ⟨_, if_pos herrno, (afPacket_ok herrno).1⟩

/-! ### The numbers and the program -/

/-- Numbers that are accepted have a program. -/
theorem compileFilter_of_announced {text : List UInt8} {n : Int} {fields : List Int}
    (hread : readInts text = .ok (n :: fields)) (hcount : Announced n fields) :
    ∃ prog, compileFilter text = .ok prog ∧ convert fields = .ok prog := by
  obtain ⟨prog, hprog⟩ := convert_isOk hcount.dvd
  exact ⟨prog, compileFilter_ok_iff.mpr ⟨n, fields, hread, hcount, hprog⟩, hprog⟩

/-- The program of numbers in range is the one that is printed. -/
theorem isPrinted_of_inRange {text : List UInt8} (hrange : InRange text) {prog : List SockFilter}
    (h : compileFilter text = .ok prog) :
    0 < prog.length ∧ prog.length < 2 ^ 16 ∧ IsPrinted text prog := by
  obtain ⟨n, fields, hread, hcount, hprog⟩ := compileFilter_ok_iff.mp h
  obtain ⟨hpos, hlt, hfields⟩ := hrange n fields hread hcount
  obtain ⟨hlength, hconv⟩ := convert_ok hprog
  have hn := (announced_iff (by omega) (by omega)).mp hcount
  refine ⟨by omega, by omega, ?_⟩
  rw [IsPrinted, ← hconv.mp hfields, show (prog.length : Int) = n by omega]
  exact prefix_printed hread

/-- Numbers whose program is the one that is printed, up to a length, are in range. -/
theorem inRange_of_isPrinted {text : List UInt8} {n : Int} {fields : List Int}
    (hread : readInts text = .ok (n :: fields)) (hcount : Announced n fields)
    {prog : List SockFilter} (hprog : convert fields = .ok prog) {len : UInt16}
    (hne : prog.take len.toNat ≠ []) (h : IsPrinted text (prog.take len.toNat)) :
    1 ≤ n ∧ n < 2 ^ 16 ∧ FieldsInRange fields := by
  obtain ⟨hlength, hconv⟩ := convert_ok hprog
  obtain ⟨rest, hrest⟩ := prefix_printed hread
  rw [IsPrinted, ← hrest, List.map_cons, List.map_cons, List.cons_append,
    List.cons_prefix_cons] at h
  obtain ⟨hsome, hfields⟩ := h
  have hn := Option.some.inj hsome
  have hpos := List.length_pos_iff.mpr hne
  have hle := List.length_take_le len.toNat prog
  have hlt := len.toNat_lt
  -- The count is too small to have been reached modulo `2 ^ 64`, so nothing was cut off.
  have hcut := (announced_iff (by omega) (by omega)).mp hcount
  rw [(List.take_prefix len.toNat prog).eq_of_length (by omega)] at hfields
  have hintFields := length_intFields prog
  have heq := (List.prefix_of_prefix_length_le hfields (List.prefix_append _ _)
    (by simp only [List.length_map]; omega)).eq_of_length (by simp only [List.length_map]; omega)
  refine ⟨by omega, by omega, hconv.mpr ?_⟩
  exact ((Option.some_injective _).list_map heq).symm

/-! ### The filter of a socket -/

/-- The calls of a socket whose program is not too long for its length. -/
theorem filterIntact_of_calls {text : List UInt8} {prog : List SockFilter}
    (hpos : 0 < prog.length) (hlt : prog.length < 2 ^ 16) (hprinted : IsPrinted text prog)
    {s : Socket} {sc : ConfigEntry} {id : Int} {kernel : Kernel}
    (hcalls : s.calls = .socket :: (sc.args id prog).allCalls kernel) :
    FilterIntact text (.ok s) := by
  have htake : prog.take (Int32.ofInt prog.length).toUInt32.toUInt16.toNat = prog := by
    rw [toNat_filterLen, Nat.mod_eq_of_lt hlt, List.take_length]
  constructor
  · refine ⟨(Int32.ofInt prog.length).toUInt32.toUInt16, prog, ?_⟩
    rw [hcalls, attachFilter_mem_iff]
    exact ⟨filterSize_ne_zero hpos hlt, rfl, rfl⟩
  · intro len filters hmem
    rw [hcalls, attachFilter_mem_iff] at hmem
    obtain ⟨_, rfl, rfl⟩ := hmem
    exact htake.symm ▸ ⟨List.length_pos_iff.mp hpos, hprinted⟩

/-- A text in range gives a socket with the filter that is printed, or an error. -/
theorem filterIntact_of_inRange {sc : ConfigEntry} (hfilter : sc.filter ≠ "") {text : List UInt8}
    (hmake : ¬ MakechanPanics sc.numBlocks) (hrange : InRange text) (kernel : Kernel) (id : Int)
    (num : Nat) :
    FilterIntact text (newSocket kernel (compileFilter text).toOption sc id num) := by
  rw [newSocket_eq, if_neg hmake]
  cases hcompile : compileFilter text with
  | error stop =>
      rw [show filterOf sc (Except.error stop : Except _ _).toOption = .error .compileFilter from
        if_neg hfilter]
      trivial
  | ok prog =>
      obtain ⟨hpos, hlt, hprinted⟩ := isPrinted_of_inRange hrange hcompile
      rw [show (Except.ok prog : Except FilterStop _).toOption = some prog from rfl,
        filterOf_ok hfilter (List.length_pos_iff.mp hpos)]
      dsimp only
      split
      · rename_i herrno
        exact filterIntact_of_calls hpos hlt hprinted (afPacket_ok herrno).1
      · trivial

/-- The filter of a socket is the one that is printed, whatever the kernel answers, exactly if the
number of blocks is one a channel may have and the numbers that are accepted are in range: they
announce at least one and less than `2 ^ 16` instructions, and in each instruction `code` is below
`2 ^ 16`, `jt` and `jf` are below `2 ^ 8`, and `k` is below `2 ^ 32`. -/
theorem filter_intact_iff (sc : ConfigEntry) (hfilter : sc.filter ≠ "") (text : List UInt8) :
    (∀ kernel id num,
      FilterIntact text (newSocket kernel (compileFilter text).toOption sc id num)) ↔
      ¬ MakechanPanics sc.numBlocks ∧ InRange text := by
  constructor
  · intro h
    have hmake : ¬ MakechanPanics sc.numBlocks := by
      intro hpanics
      have hintact := h willingKernel 0 0
      rw [newSocket_eq, if_pos hpanics] at hintact
      exact hintact
    refine ⟨hmake, fun n fields hread hcount => ?_⟩
    obtain ⟨prog, hcompile, hprog⟩ := compileFilter_of_announced hread hcount
    have hintact := h willingKernel 0 0
    rw [hcompile, show (Except.ok prog : Except FilterStop _).toOption = some prog from rfl]
      at hintact
    -- An empty program is not rejected, and its first instruction is asked for.
    have hne : prog ≠ [] := by
      rintro rfl
      rw [newSocket_eq, if_neg hmake, show filterOf sc (some []) = .error .emptyFilter from
        if_neg hfilter] at hintact
      exact hintact
    obtain ⟨s, hs, hcalls⟩ := newSocket_willingKernel hmake hfilter hne
    rw [hs] at hintact
    obtain ⟨⟨len, filters, hmem⟩, hall⟩ := hintact
    have hprinted := hall len filters hmem
    rw [hcalls, attachFilter_mem_iff] at hmem
    obtain ⟨_, _, rfl⟩ := hmem
    exact inRange_of_isPrinted hread hcount hprog hprinted.1 hprinted.2
  · rintro ⟨hmake, hrange⟩ kernel id num
    exact filterIntact_of_inRange hfilter hmake hrange kernel id num

/-- The entry of a socket with a filter. -/
def tcpOnly : ConfigEntry := { twoSockets "a" 1 with filter := "tcp" }

/-- A filter of a single instruction. -/
theorem filter_intact_iff_returnFour : tcpOnly.filter ≠ "" ∧ InRange returnFour ∧
    ∀ kernel id num, FilterIntact returnFour
      (newSocket kernel (compileFilter returnFour).toOption tcpOnly id num) :=
  have hrange : InRange returnFour := by
    intro n fields hread _
    rw [show readInts returnFour = .ok [1, 6, 0, 0, 4] by decide +kernel] at hread
    cases hread
    simp [FieldsInRange]
  ⟨by decide, hrange, (filter_intact_iff tcpOnly (by decide) returnFour).mpr ⟨by decide, hrange⟩⟩

/-- "0\n" is accepted, and then `&f[0]` of the empty program panics. "1\n65542 0 0 4\n" is
accepted as if it were "1\n6 0 0 4\n". -/
theorem no_instructions_panics :
    (∀ kernel id num, newSocket kernel (compileFilter [48, 10]).toOption tcpOnly id num =
      .error .emptyFilter) ∧
    compileFilter [49, 10, 54, 53, 53, 52, 50, 32, 48, 32, 48, 32, 52, 10] =
      compileFilter returnFour ∧ (compileFilter returnFour).toOption = some [⟨6, 0, 0, 4⟩] := by
  refine ⟨fun kernel id num => ?_, by decide +kernel, by decide +kernel⟩
  rw [show (compileFilter [48, 10]).toOption = some [] by decide +kernel, newSocket_eq]
  rfl

end Testimony.Daemon
