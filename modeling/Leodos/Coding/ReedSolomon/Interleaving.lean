/-
Interleaved codewords, each decoded on its own.
-/
import Leodos.Coding.ReedSolomon.Decoding

namespace Leodos
namespace Coding
namespace ReedSolomon

open Assignment Feedback Gf256 Spp

/-- The word of column `i` in a buffer with `d` columns. -/
def wordAt (d i : Nat) (data : Bytes) : Vector UInt8 N :=
  Vector.ofFn fun j => data.getD (j.1 * d + i) 0

section Columns

variable {d i : Nat}

theorem index_lt (hi : i < d) {j : Nat} (hj : j < N) {data : Bytes} (hlen : d * N ≤ data.length) :
    j * d + i < data.length := by
  have hrow : (j + 1) * d ≤ N * d := Nat.mul_le_mul_right d hj
  rw [Nat.add_mul, Nat.one_mul, Nat.mul_comm N d] at hrow
  omega

theorem index_mod_div (hi : i < d) (j : Nat) : (j * d + i) % d = i ∧ (j * d + i) / d = j := by
  have hd : 0 < d := Nat.lt_of_le_of_lt (Nat.zero_le i) hi
  rw [Nat.mul_comm, Nat.mul_add_mod, Nat.mul_add_div hd, Nat.mod_eq_of_lt hi,
    Nat.div_eq_of_lt hi]
  exact ⟨rfl, Nat.add_zero j⟩

theorem column_eq (hi : i < d) {n : Nat} (hn : 0 < n) {data : Bytes} (hlen : d * n ≤ data.length) :
    column n data d i = some (Vector.ofFn fun j => data.getD (j.1 * d + i) 0) := by
  have hrow : (n - 1) * d + d = d * n := by
    rw [← Nat.succ_mul, Nat.succ_eq_add_one, Nat.sub_add_cancel hn, Nat.mul_comm]
  exact if_pos (by omega)

theorem interleave_eq (hi : i < d) {codeword data : Bytes} (hcode : codeword.length = N)
    (hlen : d * N ≤ data.length) :
    ∃ data', interleave d i codeword data = some data' ∧ data'.length = data.length ∧
      ∀ k, data'.getD k 0 = if k % d = i ∧ k / d < N then codeword.getD (k / d) 0
        else data.getD k 0 := by
  obtain ⟨data', hfold, hlen', hget⟩ := foldlM_range_of_inv (interleaveStep d i codeword)
    (fun j data' => data'.length = data.length ∧ ∀ k, data'.getD k 0 =
      if k % d = i ∧ k / d < j then codeword.getD (k / d) 0 else data.getD k 0)
    N data ⟨rfl, fun k => (if_neg fun h => Nat.not_lt_zero _ h.2).symm⟩
    (by
      intro j hj data' hinv
      obtain ⟨hlen', hget⟩ := hinv
      have hcol : j * d + i < data'.length := index_lt hi hj (hlen' ▸ hlen)
      refine ⟨data'.set (j * d + i) (codeword.getD j 0), ?_, ?_, ?_⟩
      · rw [interleaveStep, List.getElem?_eq_getElem (hcode ▸ hj), List.getD_eq_getElem]
        exact if_pos hcol
      · rw [List.length_set, hlen']
      · intro k
        obtain ⟨hmod, hdiv⟩ := index_mod_div hi j
        rw [List.getD_eq_getElem?_getD]
        by_cases hk : j * d + i = k
        · subst hk
          rw [List.getElem?_set_self hcol, hmod, hdiv, if_pos ⟨rfl, Nat.lt_succ_self j⟩,
            Option.getD_some]
        · rw [List.getElem?_set_ne hk, ← List.getD_eq_getElem?_getD, hget]
          have hne : ¬(k % d = i ∧ k / d = j) := by
            intro h
            apply hk
            rw [← h.1, ← h.2, Nat.mul_comm, Nat.div_add_mod]
          exact if_congr (by omega) rfl rfl)
  exact ⟨data', hfold, hlen', hget⟩

theorem wordAt_congr {data data' : Bytes}
    (h : ∀ j < N, data'.getD (j * d + i) 0 = data.getD (j * d + i) 0) :
    wordAt d i data' = wordAt d i data := by
  apply Vector.ext
  intro j hj
  rw [wordAt, wordAt, Vector.getElem_ofFn, Vector.getElem_ofFn]
  exact h j hj

theorem getD_wordAt (data : Bytes) {j : Nat} (hj : j < N) :
    (wordAt d i data).toList.getD j 0 = data.getD (j * d + i) 0 := by
  rw [List.getD_eq_getElem _ _ (by rwa [Vector.length_toList]), Vector.getElem_toList, wordAt,
    Vector.getElem_ofFn]

end Columns

/-- The buffer with other words in its first `m` columns. -/
structure Mixed (d m : Nat) (before : Bytes) (words : Nat → Vector UInt8 N) (data : Bytes) :
    Prop where
  length : data.length = before.length
  get : ∀ k, data.getD k 0 =
    if k % d < m ∧ k / d < N then (words (k % d)).toList.getD (k / d) 0 else before.getD k 0

namespace Mixed

variable {d m : Nat} {before data : Bytes} {words : Nat → Vector UInt8 N}

theorem start (d : Nat) (before : Bytes) (words : Nat → Vector UInt8 N) :
    Mixed d 0 before words before :=
  ⟨rfl, fun _ => (if_neg fun h => Nat.not_lt_zero _ h.1).symm⟩

theorem wordAt_next (h : Mixed d m before words data) (hm : m < d) :
    wordAt d m data = wordAt d m before := by
  apply wordAt_congr
  intro j _
  rw [h.get, if_neg]
  rw [(index_mod_div hm j).1]
  omega

theorem wordAt_done (h : Mixed d d before words data) {i : Nat} (hi : i < d) :
    wordAt d i data = words i := by
  apply vector_ext_symbols
  intro j hj
  obtain ⟨hmod, hdiv⟩ := index_mod_div hi j
  rw [symbols, symbols, getD_wordAt _ hj, h.get, hmod, hdiv, if_pos ⟨hi, hj⟩]

theorem step (h : Mixed d m before words data) (hm : m < d) (hlen : d * N ≤ before.length) :
    ∃ data', interleave d m (words m).toList data = some data' ∧
      Mixed d (m + 1) before words data' := by
  obtain ⟨data', hint, hlen', hget⟩ := interleave_eq hm
    (show (words m).toList.length = N from Vector.length_toList)
    (show d * N ≤ data.length by rw [h.length]; exact hlen)
  refine ⟨data', hint, hlen'.trans h.length, ?_⟩
  intro k
  rw [hget, h.get]
  by_cases hk : k % d = m ∧ k / d < N
  · rw [if_pos hk, if_pos ⟨hk.1 ▸ Nat.lt_succ_self _, hk.2⟩, hk.1]
  · rw [if_neg hk]
    exact if_congr (by omega) rfl rfl

theorem eq (h : Mixed d d before words data) (hd : 0 < d) {after : Bytes}
    (hlen : before.length = after.length) (hwords : ∀ i < d, words i = wordAt d i after)
    (hrest : ∀ k, d * N ≤ k → before.getD k 0 = after.getD k 0) : data = after := by
  have hget : ∀ k, data.getD k 0 = after.getD k 0 := by
    intro k
    have hmod : k % d < d := Nat.mod_lt k hd
    rw [h.get]
    split
    · next hin =>
      rw [hwords _ hmod, getD_wordAt _ hin.2, Nat.mul_comm, Nat.div_add_mod]
    · next hout =>
      have hdiv : N ≤ k / d := Nat.le_of_not_lt fun hlt => hout ⟨hmod, hlt⟩
      exact hrest k (Nat.mul_comm N d ▸ (Nat.le_div_iff_mul_le hd).1 hdiv)
  apply List.ext_getElem (h.length.trans hlen)
  intro k hk hk'
  have hk'' := hget k
  rwa [List.getD_eq_getElem _ _ hk, List.getD_eq_getElem _ _ hk'] at hk''

end Mixed

/-! ## Encoding -/

theorem toList_ofFn_getD {n : Nat} {xs : Bytes} (h : xs.length = n) :
    (Vector.ofFn fun j : Fin n => xs.getD j.1 0).toList = xs := by
  apply List.ext_getElem
  · rw [Vector.length_toList, h]
  · intro k hk hk'
    rw [Vector.getElem_toList, Vector.getElem_ofFn, List.getD_eq_getElem _ _ hk']

/-- The codeword for column `i` of the data. -/
def codewordAt (d i : Nat) (data : Bytes) : Vector UInt8 N :=
  let block : Vector UInt8 K := Vector.ofFn fun j => data.getD (j.1 * d + i) 0
  let codeword := block.toList ++ (block.toList.foldl divide (Vector.replicate PARITY 0)).toList
  Vector.ofFn fun j => codeword.getD j.1 0

theorem toList_codewordAt (d i : Nat) (data : Bytes) :
    encode (Vector.ofFn fun j : Fin K => data.getD (j.1 * d + i) 0).toList (List.replicate N 0) =
      (.ok N, (codewordAt d i data).toList) := by
  rw [encode_of_length Vector.length_toList List.length_replicate, codewordAt, toList_ofFn_getD]
  rw [List.length_append, Vector.length_toList, Vector.length_toList]
  rfl

theorem codewordAt_noSyndromes (d i : Nat) (data : Bytes) : NoSyndromes (codewordAt d i data) :=
  (codeword_iff _).1
    ⟨_, _, Vector.length_toList, List.length_replicate, toList_codewordAt d i data⟩

theorem depth_le {depth : UInt8} (h1 : 1 ≤ depth) (h5 : depth ≤ 5) :
    ¬(depth = 0 ∨ depth > 5) ∧ 0 < depth.toNat := by
  rw [UInt8.le_iff_toNat_le] at h1 h5
  constructor
  · intro h
    rcases h with rfl | h
    · exact absurd h1 (by decide)
    · exact absurd (UInt8.lt_iff_toNat_lt.1 h) (Nat.not_lt.2 h5)
  · exact h1

theorem encodeInterleaved_eq {data output : Bytes} {depth : UInt8} (h1 : 1 ≤ depth)
    (h5 : depth ≤ 5) (hdata : depth.toNat * K ≤ data.length)
    (houtput : depth.toNat * N ≤ output.length) :
    ∃ out, encodeInterleaved data depth output = some (.ok (depth.toNat * N), out) ∧
      Mixed depth.toNat depth.toNat output (fun i => codewordAt depth.toNat i data) out := by
  obtain ⟨s, hfold, houtcome, hmixed⟩ := foldlM_range_of_inv (encodeColumn data depth.toNat)
    (fun m s => s.1 = .ok () ∧
      Mixed depth.toNat m output (fun i => codewordAt depth.toNat i data) s.2)
    depth.toNat (.ok (), output) ⟨rfl, Mixed.start _ _ _⟩
    (by
      intro m hm s hinv
      obtain ⟨outcome, out⟩ := s
      obtain ⟨rfl, hmixed⟩ := hinv
      obtain ⟨out', hint, hmixed'⟩ := hmixed.step hm houtput
      refine ⟨(.ok (), out'), ?_, rfl, hmixed'⟩
      rw [encodeColumn, column_eq hm (by decide) hdata, Option.bind_eq_bind, Option.bind_some,
        toList_codewordAt]
      dsimp only
      rw [hint]
      rfl)
  refine ⟨s.2, ?_, hmixed⟩
  rw [encodeInterleaved, if_neg (depth_le h1 h5).1]
  simp only [if_neg (Nat.not_lt.2 hdata), if_neg (Nat.not_lt.2 houtput), hfold,
    Option.bind_eq_bind, Option.bind_some, houtcome]
  rfl

/-! ## Decoding -/

theorem decodeInterleaved_eq {data : Bytes} {depth : UInt8} (h1 : 1 ≤ depth) (h5 : depth ≤ 5)
    (hlen : depth.toNat * N ≤ data.length) (words : Nat → Vector UInt8 N)
    (hwords : ∀ i < depth.toNat, NoSyndromes (words i))
    (hnear : ∀ i < depth.toNat, distance (wordAt depth.toNat i data) (words i) ≤ T) :
    ∃ data', decodeInterleaved data depth = some (.ok (∑ i ∈ Finset.range depth.toNat,
        distance (wordAt depth.toNat i data) (words i)), data') ∧
      Mixed depth.toNat depth.toNat data words data' := by
  obtain ⟨s, hfold, houtcome, hmixed⟩ := foldlM_range_of_inv (decodeColumn depth.toNat)
    (fun m s => s.1 = .ok (∑ i ∈ Finset.range m,
        distance (wordAt depth.toNat i data) (words i)) ∧
      Mixed depth.toNat m data words s.2)
    depth.toNat (.ok 0, data) ⟨rfl, Mixed.start _ _ _⟩
    (by
      intro m hm s hinv
      obtain ⟨outcome, data'⟩ := s
      obtain ⟨rfl, hmixed⟩ := hinv
      obtain ⟨data'', hint, hmixed'⟩ := hmixed.step hm hlen
      have hcol : column N data' depth.toNat m = some (wordAt depth.toNat m data) := by
        rw [column_eq hm (by decide) (hmixed.length ▸ hlen), ← hmixed.wordAt_next hm, wordAt]
      refine ⟨(.ok (∑ i ∈ Finset.range (m + 1),
        distance (wordAt depth.toNat i data) (words i)), data''), ?_, rfl, hmixed'⟩
      rw [decodeColumn, hcol, Option.bind_eq_bind, Option.bind_some,
        decode_of_near (hwords m hm) (hnear m hm), Option.bind_eq_bind, Option.bind_some]
      dsimp only
      rw [hint, Finset.sum_range_succ]
      rfl)
  obtain ⟨outcome, data'⟩ := s
  obtain rfl : outcome = _ := houtcome
  refine ⟨data', ?_, hmixed⟩
  rw [decodeInterleaved, if_neg (depth_le h1 h5).1]
  exact (if_neg (Nat.not_lt.2 hlen)).trans hfold

/-! ## Both decoders -/

/-- The decoder returns a count if and only if one codeword is within 16 symbols, and then that
codeword; it decodes interleaved codewords that are each wrong in at most 16 symbols. -/
theorem decode_bounded_distance :
    (∀ w : Vector UInt8 N,
      ((∃ n buffer, decode w = some (.ok n, buffer)) ↔ ∃! c, Codeword c ∧ distance w c ≤ T) ∧
      (∀ c, Codeword c → distance w c ≤ T → decode w = some (.ok (distance w c), c)) ∧
      ((∀ c, Codeword c → T < distance w c) →
        ∃ buffer, decode w = some (.error .tooManyErrors, buffer))) ∧
    ∀ (data output : Bytes) (depth : UInt8), 1 ≤ depth → depth ≤ 5 →
      depth.toNat * K ≤ data.length → depth.toNat * N ≤ output.length →
      ∃ out, encodeInterleaved data depth output = some (.ok (depth.toNat * N), out) ∧
        ∀ received : Bytes, received.length = out.length →
          (∀ k, depth.toNat * N ≤ k → received.getD k 0 = out.getD k 0) →
          (∀ i < depth.toNat,
            distance (wordAt depth.toNat i received) (wordAt depth.toNat i out) ≤ T) →
          decodeInterleaved received depth = some (.ok (∑ i ∈ Finset.range depth.toNat,
            distance (wordAt depth.toNat i received) (wordAt depth.toNat i out)), out) := by
  constructor
  · intro w
    have hnear : ∀ c, Codeword c → distance w c ≤ T → decode w = some (.ok (distance w c), c) :=
      fun c hc hdist => decode_of_near ((codeword_iff c).1 hc) hdist
    refine ⟨⟨?_, ?_⟩, hnear, ?_⟩
    · intro h
      obtain ⟨n, buffer, hok⟩ := h
      rcases decode_total w with hc | herr
      · obtain ⟨c, hc, hdist⟩ := hc
        refine ⟨c, ⟨(codeword_iff c).2 hc, hdist⟩, ?_⟩
        intro c' h'
        have heq := (hnear c' h'.1 h'.2).symm.trans (decode_of_near hc hdist)
        exact (Prod.mk.inj (Option.some.inj heq)).2
      · obtain ⟨w', herr⟩ := herr
        rw [hok] at herr
        cases herr
    · intro h
      obtain ⟨c, hc, _⟩ := h
      exact ⟨_, c, hnear c hc.1 hc.2⟩
    · intro hfar
      rcases decode_total w with hc | herr
      · obtain ⟨c, hc, hdist⟩ := hc
        exact absurd hdist (Nat.not_le.2 (hfar c ((codeword_iff c).2 hc)))
      · exact herr
  · intro data output depth h1 h5 hdata houtput
    obtain ⟨out, henc, hmixed⟩ := encodeInterleaved_eq h1 h5 hdata houtput
    refine ⟨out, henc, ?_⟩
    intro received hlen hrest hnear
    have hreceived : depth.toNat * N ≤ received.length := by
      rw [hlen, hmixed.length]
      exact houtput
    obtain ⟨data', hdec, hmixed'⟩ := decodeInterleaved_eq h1 h5 hreceived
      (fun i => wordAt depth.toNat i out)
      (fun i hi => by
        rw [hmixed.wordAt_done hi]
        exact codewordAt_noSyndromes _ _ _) hnear
    rw [hdec, hmixed'.eq (depth_le h1 h5).2 hlen (fun _ _ => rfl) hrest]

end ReedSolomon
end Coding
end Leodos
