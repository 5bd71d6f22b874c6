import Wormhole.L1Encoding.Bencode

/-!
# Does the bencode decoder come to an end?

`_bdecode_item` of `src/wh/wns/dht.py` moves through the data by the positions
it returns. After an integer, a list or a dict the position is behind where it
started; after a byte string it is wherever the length prefix says, which
`int()` reads with its sign.

* `terminates_iff`: every call that returns has moved on, and `_bdecode` comes
  to an end, exactly for the data in which no length prefix leads back.
* `prefix_leads_back`: four bytes on which the list loop stays for ever.
-/
namespace Wormhole.L1.Bencode

/-! ## Coming to an end -/

/-- A call that returns, returns a position behind the one it was given. -/
def Advances (data : Bytes) : Prop :=
  ∀ fuel depth pos v stop, decodeItem data fuel depth pos = .done (v, stop) → pos < stop

/-- `_bdecode(data)` returns a value or raises, whatever the recursion limit. -/
def Halts (data : Bytes) : Prop :=
  ∀ depth, ∃ n, ∀ fuel, n ≤ fuel → bdecode fuel depth data matches .done _ | .raised

def Terminates (data : Bytes) : Prop := Advances data ∧ Halts data

/-- Where no integer, list or dict begins, the text up to the next colon is not a
length that leads back to `pos` or before it. -/
def PrefixesForward (data : Bytes) : Prop :=
  ∀ (pos : Int) (colon : Nat) (length : Int),
    slice data pos (pos + 1) ≠ encode "i" → slice data pos (pos + 1) ≠ encode "l" →
    slice data pos (pos + 1) ≠ encode "d" → index data 58 pos = some colon →
    pyInt (slice data pos colon) = some length → pos < colon + 1 + length

/-! ## Positions -/

theorem index_lt {data : Bytes} {c : UInt8} {pos : Int} {stop : Nat}
    (h : index data c pos = some stop) : stop < data.length ∧ pos ≤ stop := by
  unfold index at h
  split at h
  · cases h
  · rename_i hpos
    simp only at h
    split at h
    · rename_i hlt
      cases h
      refine ⟨hlt, ?_⟩
      unfold sliceIndex at hlt ⊢
      split <;> omega
    · cases h

theorem slice_beyond {data : Bytes} {pos : Int} (h : (data.length : Int) ≤ pos) :
    slice data pos (pos + 1) = [] := by
  have hstart : sliceIndex data.length pos = data.length := by
    unfold sliceIndex
    split <;> omega
  unfold slice
  simp only [hstart, List.drop_length, List.take_nil]

/-- What is left of the data behind a position. -/
def left (data : Bytes) (pos : Int) : Nat := (data.length - pos).toNat

theorem decodeInt_lt {data : Bytes} {pos stop : Int} {v : Value}
    (h : decodeInt data pos = some (v, stop)) : pos < stop ∧ 0 < left data pos := by
  simp only [decodeInt, Option.bind_eq_some_iff, Option.map_eq_some_iff, Prod.mk.injEq] at h
  obtain ⟨stop', hstop, n, -, -, rfl⟩ := h
  have hlt := index_lt hstop
  unfold left
  omega

theorem decodeBytes_eq_some {data : Bytes} {pos stop : Int} {v : Value} :
    decodeBytes data pos = some (v, stop) ↔ ∃ (colon : Nat) (length : Int),
      index data 58 pos = some colon ∧ pyInt (slice data pos colon) = some length ∧
        v = .bytes (slice data (colon + 1) (colon + 1 + length)) ∧ stop = colon + 1 + length := by
  simp only [decodeBytes, Option.bind_eq_some_iff, Option.map_eq_some_iff, Prod.mk.injEq]
  constructor
  · rintro ⟨colon, hc, n, hn, rfl, rfl⟩
    exact ⟨colon, n, hc, hn, rfl, rfl⟩
  · rintro ⟨colon, n, hc, hn, rfl, rfl⟩
    exact ⟨colon, hc, n, hn, rfl, rfl⟩

theorem Decoded.ofOption_done {α : Type} {o : Option α} {a : α} (h : Decoded.ofOption o = .done a) :
    o = some a := by
  cases o with
  | none => cases h
  | some b =>
    cases h
    rfl

theorem Decoded.bind_done {α β : Type} {x : Decoded α} {f : α → Decoded β} {b : β}
    (h : x.bind f = .done b) : ∃ a, x = .done a ∧ f a = .done b := by
  cases x with
  | running => cases h
  | raised => cases h
  | done a => exact ⟨a, rfl, h⟩

/-! ## Moving on -/

variable {data : Bytes}

/-- A container begins with a byte that is there. -/
theorem left_pos {pos : Int} {c : String} (hc : slice data pos (pos + 1) = encode c)
    (hne : encode c ≠ []) : 0 < left data pos := by
  unfold left
  by_contra hle
  rw [slice_beyond (by omega)] at hc
  exact hne hc.symm

theorem left_next {pos : Int} {c : String} (hc : slice data pos (pos + 1) = encode c)
    (hne : encode c ≠ []) : left data (pos + 1) < left data pos := by
  have hpos := left_pos hc hne
  unfold left at hpos ⊢
  omega

/-- The three loops move on: an item by at least one byte, and only where there
is one. -/
theorem advances (hf : PrefixesForward data) (fuel : Nat) :
    (∀ depth pos v stop, decodeItem data fuel depth pos = .done (v, stop) →
      pos < stop ∧ 0 < left data pos) ∧
    (∀ depth pos vs stop, decodeItems data fuel depth pos = .done (vs, stop) → pos < stop) ∧
    ∀ depth es pos fs stop, decodeEntries data fuel depth es pos = .done (fs, stop) →
      pos < stop := by
  induction fuel with
  | zero => exact ⟨fun _ _ _ _ h => (by cases h), fun _ _ _ _ h => (by cases h),
      fun _ _ _ _ _ h => (by cases h)⟩
  | succ fuel ih =>
    obtain ⟨ihItem, ihItems, ihEntries⟩ := ih
    refine ⟨fun depth pos v stop h => ?_, fun depth pos vs stop h => ?_,
      fun depth es pos fs stop h => ?_⟩
    · cases depth with
      | zero => cases h
      | succ depth =>
        simp only [decodeItem] at h
        split at h
        · exact decodeInt_lt (Decoded.ofOption_done h)
        · rename_i hi
          split at h
          · rename_i hl
            obtain ⟨⟨vs, p⟩, hitems, he⟩ := Decoded.bind_done h
            cases he
            have hlt := ihItems _ _ _ _ hitems
            exact ⟨by omega, left_pos hl (by decide)⟩
          · rename_i hl
            split at h
            · rename_i hd
              obtain ⟨⟨fs, p⟩, hentries, he⟩ := Decoded.bind_done h
              cases he
              have hlt := ihEntries _ _ _ _ _ hentries
              exact ⟨by omega, left_pos hd (by decide)⟩
            · rename_i hd
              obtain ⟨colon, length, hc, hn, -, rfl⟩ :=
                decodeBytes_eq_some.mp (Decoded.ofOption_done h)
              have hlt := index_lt hc
              refine ⟨hf pos colon length hi hl hd hc hn, ?_⟩
              unfold left
              omega
    · simp only [decodeItems] at h
      split at h
      · cases h
        omega
      · obtain ⟨⟨v, p⟩, hitem, hrest⟩ := Decoded.bind_done h
        obtain ⟨⟨vs', p'⟩, hitems, he⟩ := Decoded.bind_done hrest
        cases he
        have h1 := (ihItem _ _ _ _ hitem).1
        have h2 := ihItems _ _ _ _ hitems
        exact Int.lt_trans h1 h2
    · simp only [decodeEntries] at h
      split at h
      · cases h
        omega
      · obtain ⟨⟨k, p⟩, hkey, hrest⟩ := Decoded.bind_done h
        obtain ⟨⟨v, p'⟩, hvalue, hrest⟩ := Decoded.bind_done hrest
        have h1 := (ihItem _ _ _ _ hkey).1
        have h2 := (ihItem _ _ _ _ hvalue).1
        split at hrest
        · cases hrest
        · have h3 := ihEntries _ _ _ _ _ hrest
          omega

/-! ## Fuel -/

theorem Decoded.bind_ne_running {α β : Type} {x : Decoded α} {f : α → Decoded β}
    (hx : x ≠ .running) (hf : ∀ a, x = .done a → f a ≠ .running) : x.bind f ≠ .running := by
  cases x with
  | running => exact absurd rfl hx
  | raised => exact fun h => nomatch h
  | done a => exact hf a rfl

theorem Decoded.ofOption_ne_running {α : Type} (o : Option α) :
    Decoded.ofOption o ≠ .running := by
  cases o <;> exact fun h => nomatch h

/-- Two calls for every byte that is left are enough. -/
theorem not_running (hf : PrefixesForward data) (fuel : Nat) :
    (∀ depth pos, 2 * left data pos < fuel → decodeItem data fuel depth pos ≠ .running) ∧
    (∀ depth pos, 2 * left data pos + 1 < fuel → decodeItems data fuel depth pos ≠ .running) ∧
    ∀ depth es pos, 2 * left data pos + 1 < fuel →
      decodeEntries data fuel depth es pos ≠ .running := by
  induction fuel with
  | zero => exact ⟨fun _ _ h => (by omega), fun _ _ h => (by omega), fun _ _ _ h => (by omega)⟩
  | succ fuel ih =>
    obtain ⟨ihItem, ihItems, ihEntries⟩ := ih
    have hstep : ∀ {depth pos v stop}, decodeItem data fuel depth pos = .done (v, stop) →
        left data stop < left data pos := by
      intro depth pos v stop h
      obtain ⟨hlt, hpos⟩ := (advances hf fuel).1 _ _ _ _ h
      unfold left at hpos ⊢
      omega
    refine ⟨fun depth pos hfuel => ?_, fun depth pos hfuel => ?_, fun depth es pos hfuel => ?_⟩
    · cases depth with
      | zero => exact fun h => nomatch h
      | succ depth =>
        simp only [decodeItem]
        split
        · exact Decoded.ofOption_ne_running _
        · split
          · rename_i hl
            have hlt := left_next hl (by decide)
            exact Decoded.bind_ne_running (ihItems _ _ (by omega)) fun _ _ h => nomatch h
          · split
            · rename_i hd
              have hlt := left_next hd (by decide)
              exact Decoded.bind_ne_running (ihEntries _ _ _ (by omega)) fun _ _ h => nomatch h
            · exact Decoded.ofOption_ne_running _
    · simp only [decodeItems]
      split
      · exact fun h => nomatch h
      · apply Decoded.bind_ne_running (ihItem _ _ (by omega))
        rintro ⟨v, p⟩ hitem
        have hlt := hstep hitem
        exact Decoded.bind_ne_running (ihItems _ _ (by simp only; omega)) fun _ _ h => nomatch h
    · simp only [decodeEntries]
      split
      · exact fun h => nomatch h
      · apply Decoded.bind_ne_running (ihItem _ _ (by omega))
        rintro ⟨k, p⟩ hkey
        have hlt := hstep hkey
        apply Decoded.bind_ne_running (ihItem _ _ (by simp only; omega))
        rintro ⟨v, p'⟩ hvalue
        have hlt' : left data p' < left data p := hstep hvalue
        split
        · exact fun h => nomatch h
        · exact ihEntries _ _ _ (by simp only; omega)

theorem halts (hf : PrefixesForward data) : Halts data := by
  refine fun depth => ⟨2 * data.length + 1, fun fuel hfuel => ?_⟩
  have hitem := (not_running hf fuel).1 depth 0 (by unfold left; omega)
  have hne : bdecode fuel depth data ≠ .running :=
    Decoded.bind_ne_running hitem fun _ _ h => nomatch h
  cases hb : bdecode fuel depth data with
  | running => exact absurd hb hne
  | raised => rfl
  | done v => rfl

/-- **When the decoder comes to an end.** Every call that returns has moved on,
and `_bdecode` returns or raises, if and only if no length prefix of the data leads
back. -/
theorem terminates_iff (data : Bytes) : Terminates data ↔ PrefixesForward data := by
  constructor
  · rintro ⟨hadv, -⟩ pos colon length hi hl hd hc hn
    have hitem : decodeItem data 1 1 pos =
        .done (.bytes (slice data (colon + 1) (colon + 1 + length)), colon + 1 + length) := by
      have hb := decodeBytes_eq_some.mpr ⟨colon, length, hc, hn, rfl, rfl⟩
      simp only [decodeItem, hi, hl, hd, if_false, hb, Decoded.ofOption]
    exact hadv 1 1 pos _ _ hitem
  · intro hf
    exact ⟨fun fuel depth pos v stop h => ((advances hf fuel).1 depth pos v stop h).1, halts hf⟩

/-! ## A list that stays where it is -/

/-- The length of its item is what the prefix itself takes. -/
def backwards : Bytes := encode "l-3:"

theorem backwards_items (fuel depth : Nat) :
    decodeItems backwards fuel (depth + 1) 1 = .running := by
  induction fuel with
  | zero => rfl
  | succ fuel ih =>
    have hhead : slice backwards 1 (1 + 1) ≠ encode "e" := by decide
    cases fuel with
    | zero => rfl
    | succ fuel =>
      have hitem : decodeItem backwards (fuel + 1) (depth + 1) 1 = .done (.bytes [], 1) := rfl
      rw [decodeItems, if_neg hhead, hitem]
      simp only [Decoded.bind, ih]

/-- **A prefix leads back.** With any recursion limit that lets a list hold an
item, the loop over the list takes the same item for ever. -/
theorem prefix_leads_back :
    (∀ fuel depth, bdecode fuel (depth + 2) backwards = .running) ∧
      ¬ ∀ data, Terminates data := by
  have hrun : ∀ fuel depth, bdecode fuel (depth + 2) backwards = .running := by
    intro fuel depth
    cases fuel with
    | zero => rfl
    | succ fuel =>
      have hlist : decodeItem backwards (fuel + 1) (depth + 2) 0 =
          (decodeItems backwards fuel (depth + 1) 1).bind fun r => .done (.list r.1, r.2) := rfl
      rw [bdecode, hlist, backwards_items]
      rfl
  refine ⟨hrun, fun h => ?_⟩
  obtain ⟨n, hn⟩ := (h backwards).2 2
  have hdone := hn n (Nat.le_refl n)
  rw [hrun n 0] at hdone
  cases hdone

end Wormhole.L1.Bencode
