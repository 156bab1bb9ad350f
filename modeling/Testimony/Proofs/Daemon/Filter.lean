import Testimony.Daemon.Filter
import Testimony.Lib.Except
import Testimony.Proofs.Daemon.NewSocket

/-!
# `Testimony.Proofs.Daemon.Filter`: what becomes of a filter

`tcpdump` prints a program as the number of its instructions and then the four fields of each
(`numbers`), with white space between them.
-/

set_option autoImplicit false

namespace Testimony.Daemon

open Lib

/-! ### Words and numbers -/

/-- No white space character is the beginning of another. -/
theorem separators_spaces : Separators spaces := by decide

/-- A white space character takes at most three bytes. -/
theorem length_spaces : ∀ s ∈ spaces, s.length ≤ 3 := by decide

/-- No space begins with a sign or a digit. -/
theorem head_spaces : ∀ s ∈ spaces, ∀ b, s.head? = some b → ¬ IsNumeral b := by
  simp [spaces, IsNumeral]

/-- A number is a word. -/
theorem isWord_of_parseInt {token : List UInt8} {i : Int} (h : parseInt token = some i) :
    IsWord spaces token := by
  obtain ⟨hne, hall⟩ := isNumeral_of_parseInt h
  exact ⟨hne, fun b hb s hs hhead => head_spaces s hs b hhead (hall b hb)⟩

/-- `strconv.Atoi` reads a number in the range of `int` as it was printed. -/
theorem atoi_decimal {n : Nat} (h : n < 2 ^ 63) : atoi (decimal n) = some (n : Int) := by
  have hint : IsInt (n : Int) := ⟨by omega, by omega⟩
  rw [atoi, parseInt_decimal, Option.filter_some, if_pos (decide_eq_true hint)]

/-- The fields of an instruction, in the order they are printed. -/
def SockFilter.fields (f : SockFilter) : List Nat :=
  [f.code.toNat, f.jt.toNat, f.jf.toNat, f.k.toNat]

/-- The numbers that `tcpdump` prints for a program. -/
def numbers (prog : List SockFilter) : List Nat := prog.length :: prog.flatMap SockFilter.fields

/-- An instruction has four fields. -/
theorem length_fields (prog : List SockFilter) :
    (prog.flatMap SockFilter.fields).length = 4 * prog.length := by
  induction prog with
  | nil => rfl
  | cons f prog ih =>
      rw [List.flatMap_cons, List.length_append, ih, List.length_cons]
      simp only [SockFilter.fields, List.length_cons, List.length_nil]
      omega

/-- The text has the count and four numbers for each instruction. -/
theorem length_numbers (prog : List SockFilter) : (numbers prog).length = 4 * prog.length + 1 := by
  rw [numbers, List.length_cons, length_fields]

/-- Each field fits in 32 bits. -/
theorem lt_of_mem_fields {prog : List SockFilter} {n : Nat}
    (hn : n ∈ prog.flatMap SockFilter.fields) : n < 2 ^ 32 := by
  obtain ⟨f, -, hf⟩ := List.mem_flatMap.mp hn
  have hcode := f.code.toNat_lt
  have hjt := f.jt.toNat_lt
  have hjf := f.jf.toNat_lt
  have hk := f.k.toNat_lt
  simp only [SockFilter.fields, List.mem_cons, List.not_mem_nil, or_false] at hf
  rcases hf with rfl | rfl | rfl | rfl <;> omega

/-- Each number of the text fits in an `int`. -/
theorem lt_of_mem_numbers {prog : List SockFilter} (hlen : prog.length < 2 ^ 61) {n : Nat}
    (hn : n ∈ numbers prog) : n < 2 ^ 63 := by
  rcases List.mem_cons.mp hn with rfl | hn
  · omega
  · have := lt_of_mem_fields hn
    omega

/-! ### Reading the numbers -/

/-- The conversion of one word. -/
def readInt (token : List UInt8) : Except FilterStop Int :=
  match atoi token with
  | some i => .ok i
  | none => .error (.fail (.token token))

/-- The numbers are read word by word. -/
theorem readInts_eq (text : List UInt8) : readInts text = (scanWords text).mapM readInt := rfl

/-- A number is read as it was printed. -/
theorem readInt_decimal {n : Nat} (h : n < 2 ^ 63) : readInt (decimal n) = .ok (n : Int) := by
  rw [readInt, atoi_decimal h]

/-- Printed numbers fit into the buffer. -/
theorem fitsBuffer_decimal {n width : Nat} (hn : n < 2 ^ 63) (hwidth : width ≤ 3) :
    fitsBuffer ((decimal n).length + width) = true := by
  have hlen := length_decimal_le (n := n) (show 0 < 20 by decide) (by omega)
  rw [fitsBuffer, maxScanTokenSize, decide_eq_true_eq]
  omega

/-- Between two words of the text there are at most three bytes of one separator. -/
theorem width_le {items : List (List UInt8 × Nat)} {text : List UInt8}
    (h : Spells spaces items text) : ∀ it ∈ items, it.2 ≤ 3 := by
  intro it hit
  rcases h.width it hit with hone | ⟨s, hs, hlen⟩
  · omega
  · exact hlen ▸ length_spaces s hs

/-! ### The conversion -/

/-- The fields have the ranges of their types. -/
def FieldsInRange : List Int → Prop
  | code :: jt :: jf :: k :: ints => (0 ≤ code ∧ code < 2 ^ 16) ∧ (0 ≤ jt ∧ jt < 2 ^ 8) ∧
      (0 ≤ jf ∧ jf < 2 ^ 8) ∧ (0 ≤ k ∧ k < 2 ^ 32) ∧ FieldsInRange ints
  | _ => True

/-- The fields of a program as `int`s. -/
def intFields (prog : List SockFilter) : List Int :=
  (prog.flatMap SockFilter.fields).map fun n : Nat => (n : Int)

/-- The fields of the first instruction come first. -/
theorem intFields_cons (f : SockFilter) (prog : List SockFilter) : intFields (f :: prog) =
    (f.code.toNat : Int) :: f.jt.toNat :: f.jf.toNat :: f.k.toNat :: intFields prog := rfl

/-- An instruction has four fields. -/
theorem length_intFields (prog : List SockFilter) : (intFields prog).length = 4 * prog.length := by
  rw [intFields, List.length_map, length_fields]

/-- A conversion that succeeds reads four numbers for each instruction, and it keeps them if they
are in range. -/
theorem convert_ok : ∀ {fields : List Int} {prog : List SockFilter}, convert fields = .ok prog →
    fields.length = 4 * prog.length ∧ (FieldsInRange fields ↔ fields = intFields prog)
  | [], prog, h => by
      cases h
      exact ⟨rfl, iff_of_true trivial rfl⟩
  | code :: jt :: jf :: k :: ints, prog, h => by
      obtain ⟨bpfs, hbpfs, h⟩ := bind_eq_ok.mp h
      cases h
      obtain ⟨hlen, hiff⟩ := convert_ok hbpfs
      constructor
      · simp only [List.length_cons, hlen]
        omega
      · have hcode := toNat_uint16_ofInt code
        have hjt := toNat_uint8_ofInt jt
        have hjf := toNat_uint8_ofInt jf
        have hk := toNat_uint32_ofInt k
        rw [intFields_cons, FieldsInRange, hiff]
        simp only [List.cons.injEq, hcode, hjt, hjf, hk]
        -- A number is its remainder exactly if it is in range.
        refine and_congr ?_ (and_congr ?_ (and_congr ?_ (and_congr ?_ Iff.rfl))) <;> omega
  | [_], _, h => by cases h
  | [_, _], _, h => by cases h
  | [_, _, _], _, h => by cases h

/-- It succeeds on any multiple of four numbers. -/
theorem convert_isOk : ∀ {fields : List Int}, 4 ∣ fields.length → ∃ prog, convert fields = .ok prog
  | [], _ => ⟨[], rfl⟩
  | code :: jt :: jf :: k :: ints, h => by
      simp only [List.length_cons] at h
      obtain ⟨bpfs, hbpfs⟩ := convert_isOk (show 4 ∣ ints.length by omega)
      exact ⟨_, bind_eq_ok.mpr ⟨bpfs, hbpfs, rfl⟩⟩
  | [_], h | [_, _], h | [_, _, _], h => by
      simp only [List.length_cons, List.length_nil] at h
      omega

/-- The conversion gives a program back. -/
theorem convert_intFields (prog : List SockFilter) : convert (intFields prog) = .ok prog := by
  induction prog with
  | nil => rfl
  | cons f prog ih =>
      rw [intFields_cons, convert, ih, uint16_ofInt_toNat, uint8_ofInt_toNat, uint8_ofInt_toNat,
        uint32_ofInt_toNat]
      rfl

/-! ### The check of the length -/

/-- The check may be passed by a product that wraps around, but it never leaves part of an
instruction. -/
theorem Announced.dvd {n : Int} {fields : List Int} (h : Announced n fields) :
    4 ∣ fields.length := by
  -- `2 ^ 64` is a multiple of four, so wrapping around keeps the remainder.
  have hmod : ((fields.length : Int) + 1) % 4 = (4 * n + 1) % 4 := by
    rw [h, addInt, mulInt]
    simp only [Int.bmod]
    split <;> split <;> omega
  omega

/-- For a count in range, the check on the number of fields does not overflow. -/
theorem announced_iff {n : Int} {fields : List Int} (hn : 0 ≤ n) (hlt : n < 2 ^ 61) :
    Announced n fields ↔ (fields.length : Int) = 4 * n := by
  rw [Announced, mulInt_eq (by omega) (by omega), addInt_eq (by omega) (by omega)]
  omega

/-! ### `compileFilter` -/

/-- `compileFilter` succeeds if the words are numbers, the first one announces the others, and these
make instructions. -/
theorem compileFilter_ok_iff {text : List UInt8} {prog : List SockFilter} :
    compileFilter text = .ok prog ↔ ∃ n fields, readInts text = .ok (n :: fields) ∧
      Announced n fields ∧ convert fields = .ok prog := by
  rw [compileFilter, bind_eq_ok]
  constructor
  · rintro ⟨ints, hints, h⟩
    cases ints with
    | nil => cases h
    | cons n fields =>
        simp only at h
        split at h
        · exact ⟨n, fields, hints, ‹_›, h⟩
        · cases h
  · rintro ⟨n, fields, hints, hannounced, h⟩
    refine ⟨n :: fields, hints, ?_⟩
    simp only [if_pos hannounced]
    exact h

/-- No index is out of range. -/
theorem compileFilter_ne_panic (text : List UInt8) : compileFilter text ≠ .error .panic := by
  intro h
  rcases bind_eq_error.mp h with hread | ⟨ints, -, h⟩
  · obtain ⟨token, -, htoken⟩ := mapM_error hread
    split at htoken <;> cases htoken
  · cases ints with
    | nil => cases h
    | cons n fields =>
        simp only at h
        split at h
        · rename_i hannounced
          obtain ⟨prog, hprog⟩ := convert_isOk hannounced.dvd
          rw [hprog] at h
          cases h
        · cases h

/-- So an error is an error. -/
theorem compileFilter_fail_iff {text : List UInt8} : (∃ e, compileFilter text = .error (.fail e)) ↔
    ∀ prog, compileFilter text ≠ .ok prog := by
  cases h : compileFilter text with
  | ok prog => simp
  | error stop =>
      cases stop with
      | fail e => simp
      | panic => exact absurd h (compileFilter_ne_panic text)

/-! ### Printed programs -/

/-- The tokens of a program. -/
def programTokens (prog : List SockFilter) : List (List UInt8) := (numbers prog).map decimal

/-- The scanner reads printed numbers, and what comes behind them up to a number that does not fit
into its buffer. -/
theorem scanWords_printed {l : List Nat} (hl : ∀ n ∈ l, n < 2 ^ 63)
    {first more : List (List UInt8 × Nat)} {text : List UInt8}
    (h : Spells spaces (first ++ more) text) (hfirst : first.map Prod.fst = l.map decimal)
    (hmore : ∀ it ∈ more, ∃ i, parseInt it.1 = some i) : scanWords text =
      l.map decimal ++ (more.takeWhile fun it => fitsBuffer (it.1.length + it.2)).map Prod.fst := by
  have hprinted : ∀ it ∈ first, ∃ n < 2 ^ 63, it.1 = decimal n := by
    intro it hit
    have hmem : it.1 ∈ l.map decimal := hfirst ▸ List.mem_map_of_mem hit
    obtain ⟨n, hn, heq⟩ := List.mem_map.mp hmem
    exact ⟨n, hl n hn, heq.symm⟩
  have hwords : ∀ it ∈ first ++ more, IsWord spaces it.1 := by
    intro it hit
    rcases List.mem_append.mp hit with hit | hit
    · obtain ⟨n, -, heq⟩ := hprinted it hit
      exact heq ▸ isWord_of_parseInt (parseInt_decimal n)
    · obtain ⟨i, hi⟩ := hmore it hit
      exact isWord_of_parseInt hi
  -- So the words up to there are read whatever comes behind them.
  have hfits : ∀ it ∈ first, fitsBuffer (it.1.length + it.2) = true := by
    intro it hit
    obtain ⟨n, hn, heq⟩ := hprinted it hit
    exact heq ▸ fitsBuffer_decimal hn (width_le h it (List.mem_append_left _ hit))
  rw [scanWords, scan_spells separators_spaces h hwords, List.takeWhile_append_of_pos hfits,
    List.map_append, hfirst]

/-- Printed numbers are read back, one after the other. -/
theorem readInts_printed {l : List Nat} (hl : ∀ n ∈ l, n < 2 ^ 63) {text : List UInt8}
    {more : List (List UInt8)} (hscan : scanWords text = l.map decimal ++ more) {ints : List Int} :
    readInts text = .ok ints ↔ ∃ ints', more.mapM readInt = .ok ints' ∧
      ints = l.map (fun n : Nat => (n : Int)) ++ ints' := by
  have hfirst : (l.map decimal).mapM readInt = .ok (l.map fun n : Nat => (n : Int)) :=
    mapM_map_ok fun n hn => readInt_decimal (hl n hn)
  rw [readInts_eq, hscan, List.mapM_append, bind_eq_ok]
  constructor
  · rintro ⟨ints₀, hints₀, h⟩
    cases hints₀.symm.trans hfirst
    obtain ⟨ints', hints', h⟩ := bind_eq_ok.mp h
    cases h
    exact ⟨ints', hints', rfl⟩
  · rintro ⟨ints', hints', rfl⟩
    exact ⟨_, hfirst, bind_eq_ok.mpr ⟨ints', hints', rfl⟩⟩

/-- A program that stands alone is accepted as it is. With anything behind it, it is rejected. -/
theorem compileFilter_printed {prog : List SockFilter} (hlen : prog.length < 2 ^ 61)
    {text : List UInt8} {more : List (List UInt8)}
    (hscan : scanWords text = programTokens prog ++ more) :
    (more = [] → compileFilter text = .ok prog) ∧
    (more ≠ [] → ∀ prog', compileFilter text ≠ .ok prog') := by
  have hread : ∀ ints, readInts text = .ok ints ↔ _ := fun ints =>
    readInts_printed (fun n hn => lt_of_mem_numbers hlen hn) hscan
  have hannounced : ∀ fields, Announced (prog.length : Int) fields ↔
      (fields.length : Int) = 4 * (prog.length : Int) :=
    fun fields => announced_iff (by omega) (by omega)
  have hfields := length_intFields prog
  constructor
  · rintro rfl
    refine compileFilter_ok_iff.mpr ⟨prog.length, intFields prog, (hread _).mpr ⟨[], rfl, ?_⟩, ?_,
      convert_intFields prog⟩
    · rw [List.append_nil]
      rfl
    · rw [hannounced, hfields]
      omega
  · intro hmore prog' hok
    obtain ⟨n, fields, hints, hcount, -⟩ := compileFilter_ok_iff.mp hok
    obtain ⟨ints', hints', heq⟩ := (hread _).mp hints
    obtain ⟨rfl, rfl⟩ := List.cons.inj heq
    have hpos : 0 < ints'.length := by
      rw [(mapM_ok hints').1]
      exact List.length_pos_iff.mpr hmore
    -- The count stays what it was, and there are more numbers than it announces.
    have htotal : (intFields prog ++ ints').length = 4 * prog.length + ints'.length := by
      rw [List.length_append, hfields]
    have hcount := (hannounced (intFields prog ++ ints')).mp hcount
    omega

/-- A program that breaks off is rejected. -/
theorem compileFilter_short {prog : List SockFilter} (hlen : prog.length < 2 ^ 61)
    {text : List UInt8} {j : Nat} (hj : j < 4 * prog.length + 1)
    (hscan : scanWords text = ((numbers prog).take j).map decimal) (prog' : List SockFilter) :
    compileFilter text ≠ .ok prog' := by
  intro hok
  obtain ⟨n, fields, hints, hcount, -⟩ := compileFilter_ok_iff.mp hok
  have hl : ∀ n ∈ (numbers prog).take j, n < 2 ^ 63 :=
    fun n hn => lt_of_mem_numbers hlen (List.mem_of_mem_take hn)
  rw [← List.append_nil (List.map decimal _)] at hscan
  obtain ⟨ints', hnil, heq⟩ := (readInts_printed hl hscan).mp hints
  cases hnil
  rw [List.reverse_nil, List.append_nil] at heq
  have htotal := congrArg List.length heq
  rw [List.length_map, List.length_take, length_numbers, List.length_cons] at htotal
  cases j with
  -- Not even the count is left.
  | zero => cases heq
  | succ j =>
      rw [numbers, List.take_succ_cons, List.map_cons] at heq
      obtain ⟨rfl, -⟩ := List.cons.inj heq
      have hcount := (announced_iff (by omega) (by omega)).mp hcount
      omega

/-- Numbers behind a program are noticed exactly if the first of them fits into the buffer of the
scanner. -/
theorem compileFilter_appended {prog : List SockFilter} (hlen : prog.length < 2 ^ 61)
    {first rest : List (List UInt8 × Nat)} {it : List UInt8 × Nat} {text : List UInt8}
    (h : Spells spaces (first ++ it :: rest) text)
    (hfirst : first.map Prod.fst = programTokens prog)
    (hmore : ∀ it' ∈ it :: rest, ∃ i, parseInt it'.1 = some i) :
    if fitsBuffer (it.1.length + it.2) then ∀ prog', compileFilter text ≠ .ok prog'
    else compileFilter text = .ok prog := by
  have hscan := scanWords_printed (fun n hn => lt_of_mem_numbers hlen hn) h hfirst hmore
  rw [List.takeWhile_cons] at hscan
  obtain ⟨halone, hbehind⟩ := compileFilter_printed hlen hscan
  split
  · rename_i hfits
    exact hbehind (by simp [hfits])
  · rename_i hfits
    exact halone (by simp [hfits])

/-- What is printed for a program, with any white space, is compiled to that program. If numbers are
missing at the end it is rejected, and if there are more of them it is rejected exactly if the first
of them fits into the buffer of the scanner. On no text at all is an index out of range. -/
theorem compileFilter_undoes_print (prog : List SockFilter) (hlen : prog.length < 2 ^ 61) :
    (∀ items text, Spells spaces items text → items.map Prod.fst = programTokens prog →
      compileFilter text = .ok prog) ∧
    (∀ items text m, Spells spaces items text → 0 < m →
      items.map Prod.fst = (programTokens prog).take (4 * prog.length + 1 - m) →
      ∃ e, compileFilter text = .error (.fail e)) ∧
    (∀ first it rest text, Spells spaces (first ++ it :: rest) text →
      first.map Prod.fst = programTokens prog →
      (∀ it' ∈ it :: rest, ∃ i, parseInt it'.1 = some i) →
      ((∃ e, compileFilter text = .error (.fail e)) ↔
        it.1.length + it.2 ≤ maxScanTokenSize)) ∧
    ∀ text, compileFilter text ≠ .error .panic := by
  refine ⟨?_, ?_, ?_, compileFilter_ne_panic⟩
  · intro items text h hitems
    rw [← List.append_nil items] at h
    have hscan := scanWords_printed (fun n hn => lt_of_mem_numbers hlen hn) h hitems (by simp)
    exact (compileFilter_printed hlen hscan).1 rfl
  · intro items text m h hm hitems
    rw [programTokens, ← List.map_take] at hitems
    rw [← List.append_nil items] at h
    have hscan := scanWords_printed
      (fun n hn => lt_of_mem_numbers hlen (List.mem_of_mem_take hn)) h hitems (by simp)
    rw [List.takeWhile_nil, List.map_nil, List.append_nil] at hscan
    exact compileFilter_fail_iff.mpr fun prog' => compileFilter_short hlen (by omega) hscan prog'
  · intro first it rest text h hfirst hmore
    have happended := compileFilter_appended hlen h hfirst hmore
    rw [compileFilter_fail_iff, ← decide_eq_true_iff (p := _ ≤ maxScanTokenSize)]
    show _ ↔ fitsBuffer _ = true
    split at happended
    · rename_i hfits
      exact iff_of_true happended hfits
    · rename_i hfits
      exact iff_of_false (fun hno => hno prog happended) hfits

/-- "1\n6 0 0 4\n": return four bytes of every packet. -/
def returnFour : List UInt8 := [49, 10, 54, 32, 48, 32, 48, 32, 52, 10]

/-- Its words, with something behind them. -/
theorem spells_returnFour {items : List (List UInt8 × Nat)} {text : List UInt8}
    (h : Spells spaces items text) : Spells spaces
      ([([49], 1), ([54], 1), ([48], 1), ([48], 1), ([52], 1)] ++ items) (returnFour ++ text) :=
  h.words [([49], [10]), ([54], [32]), ([48], [32]), ([48], [32]), ([52], [10])] (by decide)

/-- The packets of IPv4: load the type of the frame, compare it with 2048, and take all or
nothing. -/
def ipOnly : List SockFilter := [⟨40, 0, 0, 12⟩, ⟨21, 0, 1, 2048⟩, ⟨6, 0, 0, 262144⟩, ⟨6, 0, 0, 0⟩]

/-- "4\n40 0 0 12\n21 0 1 2048\n6 0 0 262144\n6 0 0 0\n", word by word. -/
def ipOnlyWords : List (List UInt8 × List UInt8) :=
  [([52], [10]), ([52, 48], [32]), ([48], [32]), ([48], [32]), ([49, 50], [10]),
    ([50, 49], [32]), ([48], [32]), ([49], [32]), ([50, 48, 52, 56], [10]),
    ([54], [32]), ([48], [32]), ([48], [32]), ([50, 54, 50, 49, 52, 52], [10]),
    ([54], [32]), ([48], [32]), ([48], [32]), ([48], [10])]

/-- The program comes back as it was, and without its last number it is rejected. -/
theorem compileFilter_undoes_print_ip :
    compileFilter (ipOnlyWords.flatMap fun p => p.1 ++ p.2) = .ok ipOnly ∧
    ∃ e, compileFilter (ipOnlyWords.dropLast.flatMap fun p => p.1 ++ p.2) = .error (.fail e) := by
  have hspells : ∀ words : List (List UInt8 × List UInt8), (∀ p ∈ words, p.2 ∈ spaces) →
      Spells spaces (words.map fun p => (p.1, p.2.length))
        (words.flatMap fun p => p.1 ++ p.2) := by
    intro words hwords
    simpa only [List.append_nil] using Spells.nil.words words hwords
  obtain ⟨hround, hshort, -, -⟩ := compileFilter_undoes_print ipOnly (by decide)
  exact ⟨hround _ _ (hspells ipOnlyWords (by decide)) (by decide),
    hshort _ _ 1 (hspells ipOnlyWords.dropLast (by decide)) (by decide) (by decide)⟩

/-- Any number of zeros is zero. -/
theorem parseInt_zeros {n : Nat} (hn : 0 < n) : parseInt (List.replicate n 48) = some 0 := by
  have hdigits : ∀ m, parseDigits 0 (List.replicate m 48) = some 0 := by
    intro m
    induction m with
    | zero => rfl
    | succ m ih => exact ih
  obtain ⟨m, rfl⟩ := Nat.exists_eq_succ_of_ne_zero (Nat.ne_of_gt hn)
  rw [List.replicate_succ, parseInt, if_neg (by decide), if_neg (by decide), ← List.replicate_succ,
    parseNat, if_neg (by simp), hdigits]
  rfl

/-- A number of 64 kB behind the program is not noticed. -/
theorem long_number_ignored : ∃ zeros : List UInt8, zeros.length = 65536 ∧
    parseInt zeros = some 0 ∧
    Spells spaces ([([49], 1), ([54], 1), ([48], 1), ([48], 1), ([52], 1)] ++ [(zeros, 1)])
      (returnFour ++ zeros) ∧
    [[49], [54], [48], [48], [52]] = programTokens [⟨6, 0, 0, 4⟩] ∧
    compileFilter (returnFour ++ zeros) = .ok [⟨6, 0, 0, 4⟩] := by
  obtain ⟨zeros, hlen, hzero⟩ : ∃ zeros : List UInt8, zeros.length = 65536 ∧
      parseInt zeros = some 0 := ⟨_, List.length_replicate, parseInt_zeros (by decide)⟩
  have hspells := spells_returnFour (.last zeros)
  have hlength : [(⟨6, 0, 0, 4⟩ : SockFilter)].length < 2 ^ 61 := by decide
  have happended := compileFilter_appended hlength hspells (by decide)
    (List.forall_mem_cons.mpr ⟨⟨0, hzero⟩, by simp⟩)
  rw [hlen, show fitsBuffer (65536 + 1) = false by decide] at happended
  exact ⟨zeros, hlen, hzero, hspells, by decide, happended⟩

end Testimony.Daemon
