import Testimony.Proofs.Packets
import Testimony.TestClients

/-!
# `Testimony.Proofs.TestClients`: the two test programs print the same

The C program counts down behind a packet and leaves at once when it has printed enough. The Go
program counts down before it prints, and looks at the count again when it has asked for the next
packet and when it has returned the block. On well formed blocks they print the same lines
(`dumps_agree`), but the C program keeps the block that it was printing.
-/

set_option autoImplicit false

namespace Testimony.TestClients

open Lib Tpacket

/-! ### One packet -/

/-- Two digits for each byte, in both languages. -/
theorem printf02x_eq (b : UInt8) : printf02x b =
    [ldigits.getD (b >>> 4).toNat '0', ldigits.getD (b &&& 0xF).toNat '0'] := by
  have hall : ∀ n < 256, printf02x (UInt8.ofNat n) =
      [ldigits.getD (UInt8.ofNat n >>> 4).toNat '0',
        ldigits.getD (UInt8.ofNat n &&& 0xF).toNat '0'] := by decide +kernel
  have hb := hall b.toNat b.toNat_lt
  rwa [UInt8.ofNat_toNat] at hb

/-- The C program prints the bytes of a packet as the Go program does with `%x`. -/
theorem dumpPacket_eq (m : Mem) (pkt : Nat) : dumpPacket m pkt =
    printfX (bytes m (Client.packetData m pkt) (tpSnaplen m pkt).toNat) := by
  rw [dumpPacket, funext printf02x_eq]
  rfl

/-- What is printed of packet `j` of a block. -/
def line (dump : Bool) (m : Mem) (j : Nat) : List Char :=
  if dump then printfX (bytes m (dataAt m j) (tpSnaplen m (packetAt m j)).toNat) else []

/-! ### One block -/

/-- The count goes down by one. -/
theorem toInt_sub_one {flagCount : Int32} {n : Nat} (hpos : 0 < n) (hcount : flagCount.toInt = n) :
    (flagCount - 1).toInt = ((n - 1 : Nat) : Int) := by
  have hmax := flagCount.toInt_lt
  rw [Int32.toInt_sub, Int32.toInt_one, hcount, Int.bmod_eq_of_le (by omega) (by omega)]
  omega

/-- The C program on the last `d` packets of a block, with `n` packets to print. -/
theorem clientPackets_eq {m : Mem} (dump : Bool) (d : Nat) : ∀ {iter : Client.Iter}
    {flagCount : Int32} {j n : Nat} (fuel : Nat), iter.At m j → j + d = count m → d < fuel → 0 < n →
    flagCount.toInt = n → ∃ iter' flagCount', clientPackets dump fuel iter flagCount =
        .ok (((List.range' j d).take n).flatMap (line dump m), iter', flagCount', decide (n ≤ d)) ∧
      (d < n → flagCount'.toInt = ((n - d : Nat) : Int)) := by
  induction d with
  | zero =>
      intro iter flagCount j n fuel hat hj hfuel hpos hcount
      obtain ⟨fuel, rfl⟩ := Nat.exists_eq_succ_of_ne_zero hfuel.ne'
      have hzero : iter.left = 0 := by
        rw [← Int32.toInt_inj, hat.left_eq, Int32.toInt_zero]
        omega
      refine ⟨iter, flagCount, ?_, fun _ => hcount⟩
      rw [clientPackets, Client.iterNext, if_pos hzero, decide_eq_false (Nat.not_le.mpr hpos)]
      simp [bind, Except.bind, pure, Except.pure]
  | succ d ih =>
      intro iter flagCount j n fuel hat hj hfuel hpos hcount
      obtain ⟨fuel, rfl⟩ := Nat.exists_eq_succ_of_ne_zero (Nat.zero_lt_of_lt hfuel).ne'
      obtain ⟨n, rfl⟩ := Nat.exists_eq_succ_of_ne_zero hpos.ne'
      obtain ⟨iter₁, hnext, hat₁⟩ := hat.next (by omega)
      have hsub := toInt_sub_one hpos hcount
      rw [Nat.succ_sub_one] at hsub
      have hline : clientLine dump iter₁ (packetAt m j) = line dump m j := by
        simp only [clientLine, line, hat₁.block_eq, Option.elim_some, dumpPacket_eq]
        rfl
      rw [List.range'_succ, List.take_succ_cons, List.flatMap_cons]
      by_cases hn : n = 0
      · -- This was the last one.
        subst hn
        have hzero : flagCount - 1 = 0 := by
          rw [← Int32.toInt_inj, hsub, Int32.toInt_zero]
          rfl
        refine ⟨iter₁, 0, ?_, fun hlt => by omega⟩
        simp [clientPackets, hnext, hline, hzero, bind, Except.bind, pure, Except.pure]
      · have hne : flagCount - 1 ≠ 0 := by
          intro hzero
          rw [hzero, Int32.toInt_zero] at hsub
          omega
        obtain ⟨iter', flagCount', hrest, hcount'⟩ :=
          ih fuel hat₁ (by omega) (by omega) (Nat.pos_of_ne_zero hn) hsub
        refine ⟨iter', flagCount', ?_, fun hlt => ?_⟩
        · simp [clientPackets, hnext, hline, hne, hrest, bind, Except.bind, pure, Except.pure]
        · rw [hcount' (by omega)]
          omega

/-- The Go program on the last `d` packets of a block, with `n` packets to print. -/
theorem testclientPackets_eq {B : GoClient.Slice} (h : WellFormed B.mem B.len) (dump : Bool)
    (d : Nat) : ∀ (j n fuel : Nat), j + d = count B.mem → d < fuel →
    testclientPackets dump fuel (GoClient.Block.after B j) n =
      .ok (((List.range' j d).take n).flatMap (line dump B.mem), ((n - d : Nat) : Int)) := by
  induction d with
  | zero =>
      intro j n fuel hj hfuel
      obtain ⟨fuel, rfl⟩ := Nat.exists_eq_succ_of_ne_zero hfuel.ne'
      obtain rfl : j = count B.mem := hj
      obtain ⟨b, hb⟩ := GoClient.next_last h.toChained
      simp [testclientPackets, hb, bind, Except.bind, pure, Except.pure]
  | succ d ih =>
      intro j n fuel hj hfuel
      obtain ⟨fuel, rfl⟩ := Nat.exists_eq_succ_of_ne_zero (Nat.zero_lt_of_lt hfuel).ne'
      have hlt : j < count B.mem := by omega
      have hnext := GoClient.next_after h.toChained hlt
      cases n with
      | zero => simp [testclientPackets, hnext, bind, Except.bind, pure, Except.pure]
      | succ n =>
          have hline : testclientLine dump (GoClient.Block.after B (j + 1)) =
              .ok (line dump B.mem j) := by
            cases dump with
            | false => rfl
            | true =>
                simp only [testclientLine, GoClient.packetData_ok h hlt, line, if_true]
                rfl
          have hne : ((n + 1 : Nat) : Int) ≠ 0 := by omega
          have hsub : ((n + 1 : Nat) : Int) - 1 = n := by omega
          rw [List.range'_succ, List.take_succ_cons, List.flatMap_cons]
          simp only [testclientPackets, hnext, hline, hne, hsub, if_true, if_false, bind,
            Except.bind, pure, Except.pure, ih (j + 1) n fuel (by omega) (by omega),
            Nat.add_sub_add_right]

/-! ### The programs -/

/-- The lines of all packets, up to the first call that fails. -/
def lines (dump : Bool) : List Round → List (List Char)
  | [] => []
  | .failed :: _ => []
  | .block B returned :: rounds =>
      (List.range (count B.mem)).map (line dump B.mem) ++
        if returned then lines dump rounds else []

/-- How the outputs of the two programs compare, with `n` packets to print and `total` to get. When
there are not enough the two are the same, and both go on. When there are enough the C program stops
without returning the last block, and the Go program tries to return it. -/
structure Agree (n total : Nat) (c g : Output) : Prop where
  text : g.text = c.text
  short : total < n → g = c ∧ c.exit ≠ .done
  full : n ≤ total → c.exit = .done ∧
    (g.exit = .done ∧ g.returned = c.returned + 1 ∨ g.exit = .failed ∧ g.returned = c.returned)

/-- One more block in front. -/
theorem Agree.after {n total d : Nat} {c g : Output} (h : Agree n total c g) (text : List Char) :
    Agree (n + d) (total + d) (c.after text) (g.after text) where
  text := by rw [Output.after, Output.after, h.text]
  short hlt := by
    obtain ⟨heq, hexit⟩ := h.short (by omega)
    exact ⟨by rw [heq], hexit⟩
  full hle := by
    obtain ⟨hdone, hgo⟩ := h.full (by omega)
    refine ⟨hdone, ?_⟩
    rcases hgo with ⟨hexit, hret⟩ | ⟨hexit, hret⟩
    · exact .inl ⟨hexit, congrArg Nat.succ hret⟩
    · exact .inr ⟨hexit, congrArg Nat.succ hret⟩

/-- What the C program makes of a block whose packets it has been through. -/
theorem clientMain_block {dump : Bool} {iter iter₀ iter₁ : Client.Iter} {B : GoClient.Slice}
    {flagCount flagCount₁ : Int32} {text : List Char} {stop : Bool}
    (hreset : Client.iterReset iter B.mem = .ok iter₀)
    (hpackets : clientPackets dump (iter₀.left.toUInt32.toNat + 1) iter₀ flagCount =
      .ok (text, iter₁, flagCount₁, stop)) (returned : Bool) (rounds : List Round) :
    clientMain dump iter flagCount (.block B returned :: rounds) =
      if stop then .ok ⟨text, 0, .done⟩
      else if returned then (clientMain dump iter₁ flagCount₁ rounds).map (.after text)
      else .ok ⟨text, 0, .failed⟩ := by
  rw [clientMain, hreset]
  simp only [Except.toOption, Option.getD_some, hpackets, bind, Except.bind, pure, Except.pure,
    Except.map]

/-- And the Go program. -/
theorem testclientMain_block {dump : Bool} {B : GoClient.Slice} {n n₁ : Int} {text : List Char}
    (hpackets : testclientPackets dump ((numPkts B.mem 0).toNat + 1) (.fresh B) n =
      .ok (text, n₁)) (returned : Bool) (rounds : List Round) :
    testclientMain dump n (.block B returned :: rounds) =
      if returned then
        if n₁ = 0 then .ok ⟨text, 1, .done⟩ else (testclientMain dump n₁ rounds).map (.after text)
      else .ok ⟨text, 0, .failed⟩ := by
  rw [testclientMain, hpackets]
  simp only [bind, Except.bind, pure, Except.pure, Except.map]

/-- The first lines of a block and what comes behind it. -/
theorem take_lines (dump : Bool) (B : GoClient.Slice) (returned : Bool) (rounds : List Round)
    (n : Nat) : ((lines dump (.block B returned :: rounds)).take n).flatten =
      ((List.range' 0 (count B.mem)).take n).flatMap (line dump B.mem) ++
        ((if returned then lines dump rounds else []).take (n - count B.mem)).flatten := by
  rw [lines, List.take_append, List.flatten_append, List.length_map, List.length_range,
    ← List.map_take, List.range_eq_range', List.flatMap_def]

/-- The iterator has as much fuel as its block has packets. -/
theorem lt_fuel {m : Mem} {iter : Client.Iter} (h : iter.At m 0) :
    count m < iter.left.toUInt32.toNat + 1 := by
  have hleft : iter.left.toBitVec.toInt = (count m : Int) := by
    have := h.left_eq
    rwa [Int.natCast_zero, Int.sub_zero] at this
  have hnat : iter.left.toUInt32.toNat = iter.left.toBitVec.toNat := rfl
  rw [BitVec.toInt_eq_toNat_cond] at hleft
  split at hleft <;> omega

/-- The two programs from some block on, with `n` packets left to print. -/
theorem exists_outputs (dump : Bool) (rounds : List Round) : ∀ {n : Nat} {flagCount : Int32}
    (iter : Client.Iter),
    (∀ B returned, Round.block B returned ∈ rounds → WellFormed B.mem B.len) → 0 < n →
    flagCount.toInt = n → ∃ c g, clientMain dump iter flagCount rounds = .ok c ∧
      testclientMain dump n rounds = .ok g ∧ c.text = ((lines dump rounds).take n).flatten ∧
      Agree n (lines dump rounds).length c g := by
  induction rounds with
  | nil =>
      intro n flagCount iter _ hpos _
      exact ⟨_, _, rfl, rfl, by simp [lines], rfl, fun _ => ⟨rfl, nofun⟩,
        fun hle => absurd hpos (Nat.not_lt.mpr hle)⟩
  | cons round rounds ih =>
      intro n flagCount iter hwf hpos hcount
      cases round with
      | failed =>
          exact ⟨_, _, rfl, rfl, by simp [lines], rfl, fun _ => ⟨rfl, nofun⟩,
            fun hle => absurd hpos (Nat.not_lt.mpr hle)⟩
      | block B returned =>
          have hB := hwf B returned (List.mem_cons_self ..)
          obtain ⟨iter₀, hreset, hat⟩ := Client.at_reset hB iter
          obtain ⟨iter₁, flagCount₁, hc, hcount₁⟩ :=
            clientPackets_eq dump (count B.mem) _ hat (Nat.zero_add _) (lt_fuel hat) hpos hcount
          have hg := testclientPackets_eq hB dump (count B.mem) 0 n _ (Nat.zero_add _)
            (Nat.lt_succ_self _)
          have hlen : (lines dump (.block B returned :: rounds)).length =
              count B.mem + (if returned then lines dump rounds else []).length := by
            rw [lines, List.length_append, List.length_map, List.length_range]
          rw [take_lines, hlen, clientMain_block hreset hc, testclientMain_block hg]
          by_cases hstop : n ≤ count B.mem
          · -- There are enough packets in this block.
            rw [decide_eq_true hstop, Nat.sub_eq_zero_of_le hstop, List.take_zero, List.flatten_nil,
              List.append_nil]
            cases returned with
            | true =>
                exact ⟨_, _, rfl, rfl, rfl, rfl, fun hlt => by omega,
                  fun _ => ⟨rfl, .inl ⟨rfl, rfl⟩⟩⟩
            | false =>
                exact ⟨_, _, rfl, rfl, rfl, rfl, fun hlt => by omega,
                  fun _ => ⟨rfl, .inr ⟨rfl, rfl⟩⟩⟩
          · rw [decide_eq_false hstop]
            cases returned with
            | true =>
                obtain ⟨c, g, hclient, htestclient, htext, hagree⟩ := ih iter₁
                  (fun B' r hmem => hwf B' r (List.mem_cons_of_mem _ hmem))
                  (n := n - count B.mem) (by omega) (hcount₁ (by omega))
                have hne : ((n - count B.mem : Nat) : Int) ≠ 0 := by omega
                simp only [hclient, htestclient, hne, if_true, if_false, Bool.false_eq_true,
                  Except.map]
                refine ⟨_, _, rfl, rfl, ?_, ?_⟩
                · rw [Output.after, htext]
                · have hafter := hagree.after (d := count B.mem)
                    (((List.range' 0 (count B.mem)).take n).flatMap (line dump B.mem))
                  rwa [Nat.sub_add_cancel (by omega), Nat.add_comm] at hafter
            | false =>
                refine ⟨_, _, rfl, rfl, ?_, rfl, fun _ => ⟨rfl, nofun⟩, fun hle => ?_⟩
                · simp
                · simp only [Bool.false_eq_true, if_false, List.length_nil, Nat.add_zero] at hle
                  exact absurd hle hstop

/-- Given the same blocks and a positive number of packets to print, one that the C program can hold
in its `int`, the two test programs write the same text: the first lines of all packets they could
get. If there are not enough packets the programs end alike, with the same blocks returned. If there
are, both stop behind the last line, and the Go program returns one block more. -/
theorem dumps_agree (dump : Bool) {rounds : List Round}
    (hwf : ∀ B returned, Round.block B returned ∈ rounds → WellFormed B.mem B.len) {n : Nat}
    (hpos : 0 < n) (hlt : n < 2 ^ 31) :
    ∃ c g, clientMain dump Client.iterInit (Int32.ofNat n) rounds = .ok c ∧
      testclientMain dump n rounds = .ok g ∧ c.text = ((lines dump rounds).take n).flatten ∧
      Agree n (lines dump rounds).length c g :=
  exists_outputs dump rounds Client.iterInit hwf hpos (Int32.toInt_ofNat_of_lt hlt)

/-- Two blocks of two packets. -/
def twoRounds : List Round :=
  [.block (GoClient.lastBlock GoClient.twoPackets) true,
    .block (GoClient.lastBlock GoClient.twoPackets) true]

/-- Three packets are to be printed. The first block is returned by both programs, and the second
one by the Go program only. -/
theorem dumps_agree_three : ∃ c g, clientMain true Client.iterInit 3 twoRounds = .ok c ∧
    testclientMain true 3 twoRounds = .ok g ∧ Agree 3 4 c g ∧
    c = ⟨"07080900\n0506\n07080900\n".toList, 1, .done⟩ ∧
    g = ⟨"07080900\n0506\n07080900\n".toList, 2, .done⟩ := by
  have hcount : count GoClient.twoPackets = 2 := by decide +kernel
  have hwf : WellFormed GoClient.twoPackets 192 :=
    { GoClient.chained_twoPackets with
      count_lt := by rw [hcount]; decide
      data_le := by decide +kernel }
  have hrounds : ∀ B returned, Round.block B returned ∈ twoRounds → WellFormed B.mem B.len := by
    intro B returned hmem
    simp only [twoRounds, List.mem_cons, List.not_mem_nil, or_false, or_self] at hmem
    cases hmem
    exact hwf
  obtain ⟨c, g, hc, hg, -, hagree⟩ := dumps_agree true hrounds (n := 3) (by decide) (by decide)
  have hlines : (lines true twoRounds).length = 4 := by decide +kernel
  have hclient : (clientMain true Client.iterInit 3 twoRounds).toOption =
      some ⟨"07080900\n0506\n07080900\n".toList, 1, .done⟩ := by decide +kernel
  have htestclient : (testclientMain true 3 twoRounds).toOption =
      some ⟨"07080900\n0506\n07080900\n".toList, 2, .done⟩ := by decide +kernel
  change clientMain true Client.iterInit 3 twoRounds = .ok c at hc
  change testclientMain true 3 twoRounds = .ok g at hg
  rw [hlines] at hagree
  rw [hc] at hclient
  rw [hg] at htestclient
  exact ⟨c, g, hc, hg, hagree, Option.some.inj hclient, Option.some.inj htestclient⟩

end Testimony.TestClients
