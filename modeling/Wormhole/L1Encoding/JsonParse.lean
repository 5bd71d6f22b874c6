import Wormhole.L1Encoding.JsonText

/-!
# `JSON.parse`, one character after the other

What `JSON.parse` makes of a text that is cut off. `JsonText.Reader` reads a text that is there as a
whole and gives its strings as `String`s; here the text is read a character at a time, with the
arrays and objects that are open on a stack, and a string is its UTF-16 code units, so that every
text that `JSON.parse` takes is taken. The order in which JavaScript lists keys that look like
integers is not modelled.

* `jsonParse_prefix`: a text that starts with `{` and is read has no prefix that is read as anything
  else, and none with U+FFFD behind it that is read at all.
-/
namespace Wormhole.L1.JsonParse
open Wormhole.L1.JsonText (Text isBlank scanNumber Number)

/-! ## Values -/

/-- A string in UTF-16. -/
abbrev Units := List Nat

inductive JsValue
  | null
  | bool (b : Bool)
  | num (x : PyFloat)
  | str (s : Units)
  | arr (xs : List JsValue)
  | obj (fields : List (Units × JsValue))

abbrev Props := List (Units × JsValue)

/-- A code point above the first plane is a surrogate pair. -/
def codeUnits (u : Nat) : Units :=
  if u < 0x10000 then [u] else [0xD800 + (u - 0x10000) / 0x400, 0xDC00 + (u - 0x10000) % 0x400]

/-- The string between the quotes. -/
def stringOf (raw : Text) : Option Units :=
  match JsonText.units (raw ++ ['\x22']) with
  | some (us, []) => some (us.flatMap codeUnits)
  | _ => none

/-- A constant or a number. -/
def scalar (word : Text) : Option JsValue :=
  if word = ['n', 'u', 'l', 'l'] then some .null
  else if word = ['t', 'r', 'u', 'e'] then some (.bool true)
  else if word = ['f', 'a', 'l', 's', 'e'] then some (.bool false)
  else
    match scanNumber word with
    | some (x, []) => some (.num x.toFloat)
    | _ => none

/-! ## The machine -/

/-- What a value is for: the next item of a list, or the value of a key. -/
inductive Frame
  | item (xs : List JsValue)
  | field (fields : Props) (key : Units)

/-- What comes next. `firstItem` and `firstKey` follow an opening bracket; `text` and `keyText`
have what was read of a string, and whether a backslash was last. -/
inductive Mode
  | value
  | text (raw : Text) (escaped : Bool)
  | word (raw : Text)
  | firstItem
  | afterItem (xs : List JsValue)
  | firstKey
  | key (fields : Props)
  | keyText (fields : Props) (raw : Text) (escaped : Bool)
  | colon (fields : Props) (key : Units)
  | afterField (fields : Props)
  | done (x : JsValue)

structure State where
  stack : List Frame
  mode : Mode

def State.start : State := ⟨[], .value⟩

/-- A value is complete. An object keeps the last of a key's values. -/
def complete (x : JsValue) : List Frame → State
  | [] => ⟨[], .done x⟩
  | .item xs :: stack => ⟨stack, .afterItem (xs ++ [x])⟩
  | .field fields key :: stack => ⟨stack, .afterField (Dict.assign key x fields)⟩

/-- The first character of a value. -/
def begin (stack : List Frame) (c : Char) : Option State :=
  if isBlank c then some ⟨stack, .value⟩
  else if c = '\x22' then some ⟨stack, .text [] false⟩
  else if c = '[' then some ⟨stack, .firstItem⟩
  else if c = '\x7b' then some ⟨stack, .firstKey⟩
  else if c = ',' ∨ c = ':' ∨ c = ']' ∨ c = '\x7d' then none
  else some ⟨stack, .word [c]⟩

/-- A character after a value. -/
def follow (s : State) (c : Char) : Option State :=
  if isBlank c then some s
  else
    match s.mode with
    | .afterItem xs =>
      if c = ',' then some ⟨.item xs :: s.stack, .value⟩
      else if c = ']' then some (complete (.arr xs) s.stack)
      else none
    | .afterField fields =>
      if c = ',' then some ⟨s.stack, .key fields⟩
      else if c = '\x7d' then some (complete (.obj fields) s.stack)
      else none
    | _ => none

def step (s : State) (c : Char) : Option State :=
  match s.mode with
  | .value => begin s.stack c
  | .text raw escaped =>
    if escaped then some ⟨s.stack, .text (raw ++ [c]) false⟩
    else if c = '\x22' then (stringOf raw).map fun us => complete (.str us) s.stack
    else some ⟨s.stack, .text (raw ++ [c]) (c = '\\')⟩
  | .word raw =>
    if isBlank c ∨ c = ',' ∨ c = ']' ∨ c = '\x7d' then
      (scalar raw).bind fun x => follow (complete x s.stack) c
    else some ⟨s.stack, .word (raw ++ [c])⟩
  | .firstItem =>
    if isBlank c then some s
    else if c = ']' then some (complete (.arr []) s.stack)
    else begin (.item [] :: s.stack) c
  | .firstKey =>
    if isBlank c then some s
    else if c = '\x7d' then some (complete (.obj []) s.stack)
    else if c = '\x22' then some ⟨s.stack, .keyText [] [] false⟩
    else none
  | .key fields =>
    if isBlank c then some s
    else if c = '\x22' then some ⟨s.stack, .keyText fields [] false⟩
    else none
  | .keyText fields raw escaped =>
    if escaped then some ⟨s.stack, .keyText fields (raw ++ [c]) false⟩
    else if c = '\x22' then (stringOf raw).map fun us => ⟨s.stack, .colon fields us⟩
    else some ⟨s.stack, .keyText fields (raw ++ [c]) (c = '\\')⟩
  | .colon fields key =>
    if isBlank c then some s
    else if c = ':' then some ⟨.field fields key :: s.stack, .value⟩
    else none
  | .afterItem _ | .afterField _ | .done _ => follow s c

def run (s : State) (text : Text) : Option State := text.foldlM step s

/-- The value, where the text may end. -/
def finish (s : State) : Option JsValue :=
  match s.stack, s.mode with
  | [], .done x => some x
  | [], .word raw => scalar raw
  | _, _ => none

/-- `JSON.parse(text)`; `none` is the `SyntaxError`. -/
def jsonParse (text : Text) : Option JsValue := (run .start text).bind finish

/-! ## Inside an array or an object -/

/-- Some bracket is open. -/
def State.inside (s : State) : Bool :=
  match s.mode with
  | .value | .text _ _ | .word _ | .done _ => !s.stack.isEmpty
  | _ => true

theorem run_append (s : State) (text more : Text) :
    run s (text ++ more) = (run s text).bind fun t => run t more := by
  unfold run
  rw [List.foldlM_append]
  rfl

theorem run_singleton (s : State) (c : Char) : run s [c] = step s c := by
  unfold run
  simp only [List.foldlM_cons, List.foldlM_nil, bind_pure]

theorem finish_inside {s : State} (h : s.inside = true) : finish s = none := by
  unfold finish
  split
  · rename_i hs hm
    simp [State.inside, hs, hm] at h
  · rename_i hs hm
    simp [State.inside, hs, hm] at h
  · rfl

/-- A complete value is inside, or all there is. -/
theorem inside_complete (x : JsValue) (stack : List Frame) :
    (complete x stack).inside = true ∨ stack = [] ∧ complete x stack = ⟨[], .done x⟩ := by
  cases stack with
  | nil => exact .inr ⟨rfl, rfl⟩
  | cons f stack => cases f <;> exact .inl rfl

theorem inside_begin {stack : List Frame} {c : Char} {t : State} (h : begin stack c = some t)
    (hs : stack ≠ []) : t.inside = true := by
  have hne : (!stack.isEmpty) = true := by simp [hs]
  unfold begin at h
  split at h
  · cases h
    exact hne
  · split at h
    · cases h
      exact hne
    · split at h
      · cases h
        rfl
      · split at h
        · cases h
          rfl
        · split at h
          · cases h
          · cases h
            exact hne

/-- What the last bracket leads to. -/
def Closed (s : State) (c : Char) : Prop := (∃ x, s = ⟨[], .done x⟩) ∧ (c = ']' ∨ c = '\x7d')

theorem closed_complete (x : JsValue) (stack : List Frame) {c : Char} (hc : c = ']' ∨ c = '\x7d') :
    (complete x stack).inside = true ∨ Closed (complete x stack) c := by
  rcases inside_complete x stack with h | ⟨-, h⟩
  · exact .inl h
  · exact .inr ⟨⟨x, h⟩, hc⟩

theorem inside_follow {s t : State} {c : Char} (h : follow s c = some t) (hs : s.inside = true) :
    t.inside = true ∨ Closed t c := by
  unfold follow at h
  split at h
  · cases h
    exact .inl hs
  · split at h
    · split at h
      · cases h
        exact .inl rfl
      · split at h
        · rename_i hc
          cases h
          exact closed_complete _ _ (.inl hc)
        · cases h
    · split at h
      · cases h
        exact .inl rfl
      · split at h
        · rename_i hc
          cases h
          exact closed_complete _ _ (.inr hc)
        · cases h
    · cases h

/-- What is inside stays so until its bracket is closed. -/
theorem inside_step {s t : State} {c : Char} (h : step s c = some t) (hs : s.inside = true) :
    t.inside = true ∨ Closed t c := by
  obtain ⟨stack, mode⟩ := s
  cases mode with
  | value =>
    have hne : stack ≠ [] := by simpa [State.inside] using hs
    exact .inl (inside_begin h hne)
  | text raw escaped =>
    have hne : stack ≠ [] := by simpa [State.inside] using hs
    simp only [step] at h
    split at h
    · cases h
      exact .inl hs
    · split at h
      · obtain ⟨us, -, rfl⟩ := Option.map_eq_some_iff.mp h
        rcases inside_complete (.str us) stack with hin | ⟨hnil, -⟩
        · exact .inl hin
        · exact absurd hnil hne
      · cases h
        exact .inl hs
  | word raw =>
    have hne : stack ≠ [] := by simpa [State.inside] using hs
    simp only [step] at h
    split at h
    · obtain ⟨x, -, hf⟩ := Option.bind_eq_some_iff.mp h
      rcases inside_complete x stack with hin | ⟨hnil, -⟩
      · exact inside_follow hf hin
      · exact absurd hnil hne
    · cases h
      exact .inl hs
  | firstItem =>
    simp only [step] at h
    split at h
    · cases h
      exact .inl rfl
    · split at h
      · rename_i hc
        cases h
        exact closed_complete _ _ (.inl hc)
      · exact .inl (inside_begin h (List.cons_ne_nil _ _))
  | firstKey =>
    simp only [step] at h
    split at h
    · cases h
      exact .inl rfl
    · split at h
      · rename_i hc
        cases h
        exact closed_complete _ _ (.inr hc)
      · split at h
        · cases h
          exact .inl rfl
        · cases h
  | key fields =>
    simp only [step] at h
    split at h
    · cases h
      exact .inl rfl
    · split at h
      · cases h
        exact .inl rfl
      · cases h
  | keyText fields raw escaped =>
    simp only [step] at h
    split at h
    · cases h
      exact .inl rfl
    · split at h
      · obtain ⟨us, -, rfl⟩ := Option.map_eq_some_iff.mp h
        exact .inl rfl
      · cases h
        exact .inl rfl
  | colon fields key =>
    simp only [step] at h
    split at h
    · cases h
      exact .inl rfl
    · split at h
      · cases h
        exact .inl rfl
      · cases h
  | afterItem xs => exact inside_follow h hs
  | afterField fields => exact inside_follow h hs
  | done x => exact inside_follow h hs

/-! ## After the value -/

theorem step_done (x : JsValue) (c : Char) :
    step ⟨[], .done x⟩ c = if isBlank c then some ⟨[], .done x⟩ else none := rfl

theorem run_done {x : JsValue} {text : Text} {t : State} (h : run ⟨[], .done x⟩ text = some t) :
    t = ⟨[], .done x⟩ := by
  induction text with
  | nil =>
    cases h
    rfl
  | cons c text ih =>
    unfold run at h
    rw [List.foldlM_cons, step_done] at h
    split at h
    · exact ih h
    · cases h

/-- Inside, or done. -/
theorem run_inside {s t : State} {text : Text} (h : run s text = some t) (hs : s.inside = true) :
    t.inside = true ∨ ∃ x, t = ⟨[], .done x⟩ := by
  induction text generalizing s with
  | nil =>
    cases h
    exact .inl hs
  | cons c text ih =>
    unfold run at h
    rw [List.foldlM_cons] at h
    obtain ⟨u, hu, hrest⟩ := Option.bind_eq_some_iff.mp h
    rcases inside_step hu hs with hin | ⟨⟨x, rfl⟩, -⟩
    · exact ih hrest hin
    · exact .inr ⟨x, run_done hrest⟩

/-- **No prefix of the text of an object is read as something else**, also when it is cut inside a
character. -/
theorem jsonParse_prefix {rest text : Text} {x : JsValue}
    (h : jsonParse ('\x7b' :: rest) = some x) (hp : text <+: '\x7b' :: rest) :
    (jsonParse text = none ∨ jsonParse text = some x) ∧
      jsonParse (text ++ ['\ufffd']) = none := by
  obtain ⟨more, hmore⟩ := hp
  cases text with
  | nil => exact ⟨.inl rfl, by decide⟩
  | cons c text =>
    obtain ⟨rfl, htail⟩ := List.cons.inj hmore
    have hrest : text ++ more = rest := htail
    have hopen : ∀ cs, run .start ('\x7b' :: cs) = run ⟨[], .firstKey⟩ cs := fun _ => rfl
    unfold jsonParse at h ⊢
    rw [hopen, ← hrest, run_append] at h
    obtain ⟨t, ht, hfinish⟩ := Option.bind_eq_some_iff.mp h
    obtain ⟨u, hu, hmore⟩ := Option.bind_eq_some_iff.mp ht
    rw [List.cons_append, hopen, hopen, run_append, hu]
    rcases run_inside hu rfl with hin | ⟨y, rfl⟩
    · refine ⟨.inl (finish_inside hin), ?_⟩
      show (run u ['\ufffd']).bind finish = none
      rw [run_singleton]
      cases hv : step u '\ufffd' with
      | none => rfl
      | some v =>
        rcases inside_step hv hin with hin' | ⟨-, hc⟩
        · exact finish_inside hin'
        · exact absurd hc (by decide)
    · have hy := run_done hmore
      rw [hy] at hfinish
      exact ⟨.inr hfinish, rfl⟩

end Wormhole.L1.JsonParse
