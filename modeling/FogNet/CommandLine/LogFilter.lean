/-!
# Log filters

A filter is a list of directives between commas. A directive is a level, or a scope with a level
that may be left out. A scope is a target, a span in brackets, or one of each.

Letters beyond ASCII may stand in a target.

## Main statements

* `isScoped_target` — a target alone is a directive
-/

namespace FogNet.LogFilter

def levels : List String := ["trace", "debug", "info", "warn", "error", "off"]

/-- A level by name, where capitals do not matter, or by number. -/
def isLevel (text : List Char) : Bool :=
  match text with
  | [c] => '0' ≤ c && c ≤ '5'
  | _ => levels.contains (String.ofList (text.map Char.toLower))

/-- Whether a character may stand in a target. -/
def isTargetChar (c : Char) : Bool :=
  c.isAlphanum || c == '_' || c == ':' || c == '-' || 0x80 ≤ c.toNat

/-- What follows a target or a span. -/
def afterScope? : List Char → Option (List Char)
  | '[' :: rest =>
    match rest.dropWhile fun c => c != ']' with
    | [] => none
    | _ :: rest => some rest
  | cs =>
    match cs.takeWhile isTargetChar with
    | [] => none
    | _ => some (cs.dropWhile isTargetChar)

/-- Whether a directive may end this way after its scope. -/
def isEnding : List Char → Bool
  | [] => true
  | '=' :: level => level.isEmpty || isLevel level
  | _ => false

def isScoped (text : List Char) : Bool :=
  match afterScope? text with
  | none => false
  | some rest =>
    isEnding rest ||
      match afterScope? rest with
      | none => false
      | some rest => isEnding rest

def isDirective (text : List Char) : Bool := isLevel text || isScoped text

/-- Whether a text is a filter. Nothing between two commas is no directive, and does no harm. -/
def isFilter (text : String) : Bool :=
  (text.splitOn ",").all fun part => part.isEmpty || isDirective part.toList

/-- Where a test holds of all characters, nothing is left after them. -/
theorem span_all {p : Char → Bool} : ∀ {text : List Char}, (∀ c ∈ text, p c = true) →
    text.takeWhile p = text ∧ text.dropWhile p = []
  | [], _ => ⟨rfl, rfl⟩
  | c :: rest, h => by
    have hc := h c List.mem_cons_self
    have ih := span_all fun x hx => h x (List.mem_cons_of_mem _ hx)
    simp [hc, ih.1, ih.2]

/-- A target alone is a directive. -/
theorem isScoped_target {text : List Char} (hne : text ≠ [])
    (h : ∀ c ∈ text, isTargetChar c = true) : isScoped text = true := by
  obtain ⟨htake, hdrop⟩ := span_all h
  cases text with
  | nil => exact absurd rfl hne
  | cons c rest =>
    have hc : c ≠ '[' := by
      rintro rfl
      exact absurd (h '[' List.mem_cons_self) (by decide)
    simp [isScoped, afterScope?, hc, htake, hdrop, isEnding]

end FogNet.LogFilter
