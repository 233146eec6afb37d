import Mathlib
import EditorLink.Endpoint

/-!
# EditorLink.Proofs.Endpoint -- the written form of an endpoint

What a text names is said once, by the shape of the text without the blanks around it (`Names`). The written form of an endpoint carries its
scheme, so nothing in a path can be taken for another scheme, and nothing at the front of one for a blank to be trimmed. Only its end could
be trimmed. So the written form of an endpoint that ends in no blank, and has an address if it needs one, names that endpoint (`Written.parse_text`).
Every endpoint that a text names is like that, because the text was trimmed first (`written_of_parse`).
-/

namespace EditorLink.Endpoint

open Text

/-! ## Texts that end in no blank -/

/-- The last character, if there is one, is not blank. -/
def EndsSharp (cs : List Char) : Prop :=
  ∀ c, cs.getLast? = some c → isBlank c = false

theorem endsSharp_append_iff {front back : List Char} (h : back ≠ []) : EndsSharp (front ++ back) ↔ EndsSharp back := by
  have hlast : (front ++ back).getLast? = back.getLast? := by
    rw [List.getLast?_append, List.getLast?_eq_some_getLast h]
    rfl
  rw [EndsSharp, EndsSharp, hlast]

/-- Behind a front that ends in no blank, a text may be empty. -/
theorem EndsSharp.append {front back : List Char} (hfront : EndsSharp front) (hback : EndsSharp back) : EndsSharp (front ++ back) := by
  by_cases h : back = []
  · rw [h, List.append_nil]
    exact hfront
  · exact (endsSharp_append_iff h).mpr hback

theorem EndsSharp.of_append {front back : List Char} (h : EndsSharp (front ++ back)) : EndsSharp back := by
  by_cases hback : back = []
  · rw [hback]
    exact nofun
  · exact (endsSharp_append_iff hback).mp h

theorem trimEnd_of_endsSharp {cs : List Char} (h : EndsSharp cs) : trimEnd cs = cs := by
  rcases List.eq_nil_or_concat cs with rfl | ⟨front, c, rfl⟩
  · rfl
  · have hc : isBlank c = false := h c (by simp)
    rw [trimEnd]
    simp [hc]

theorem endsSharp_trim (cs : List Char) : EndsSharp (trim cs) := by
  intro c hc
  rw [trim, trimEnd, List.getLast?_reverse] at hc
  simpa [hc] using List.head?_dropWhile_not isBlank (trimStart cs).reverse

/-- A text with no blank at either end is left alone. -/
theorem trim_of_sharp {c : Char} {cs : List Char} (hc : isBlank c = false) (h : EndsSharp (c :: cs)) : trim (c :: cs) = c :: cs := by
  have hstart : trimStart (c :: cs) = c :: cs := List.dropWhile_cons_of_neg (by simp [hc])
  rw [trim, hstart, trimEnd_of_endsSharp h]

/-! ## What a text names -/

/-- What a trimmed text names, by its shape. -/
inductive Names : List Char → Except ConfigError Endpoint → Prop where
  | nothing : Names [] (.error (.validation .blankEndpoint))
  | dash : Names ['-'] (.ok .stdio)
  | stdio : Names "stdio".toList (.ok .stdio)
  | noAddress : Names tcpScheme (.error (.validation (.tcpEndpoint "tcp://")))
  | tcp {address : List Char} : address ≠ [] → Names (tcpScheme ++ address) (.ok (.tcp (String.ofList address)))
  | unix (path : List Char) : Names (unixScheme ++ path) (.ok (.unix (String.ofList path)))
  | bare {path : List Char} : path ∉ [[], ['-'], "stdio".toList] → dropLead? tcpScheme path = none → dropLead? unixScheme path = none →
    Names path (.ok (.unix (String.ofList path)))

theorem names_ofTrimmed (cs : List Char) : Names cs (ofTrimmed cs) := by
  rw [ofTrimmed.eq_def]
  split
  · next hempty =>
    obtain rfl := List.isEmpty_iff.mp hempty
    exact .nothing
  split
  · next hstdio =>
    rcases hstdio with rfl | rfl
    · exact .dash
    · exact .stdio
  next hempty hstdio =>
  split
  · next htcp =>
    obtain rfl := dropLead?_eq_some_iff.mp htcp
    rw [List.append_nil]
    exact .noAddress
  · next address haddress htcp =>
    obtain rfl := dropLead?_eq_some_iff.mp htcp
    exact .tcp haddress
  · next htcp =>
    split
    · next path hunix =>
      obtain rfl := dropLead?_eq_some_iff.mp hunix
      exact .unix path
    · next hunix =>
      refine .bare ?_ htcp hunix
      rw [List.isEmpty_iff] at hempty
      simpa using And.intro hempty (not_or.mp hstdio)

theorem names_parse (s : String) : Names (trim s.toList) (parse s) :=
  names_ofTrimmed _

/-- A text names nothing if it is blank, or if it is a scheme that needs an address, and has none. -/
theorem parse_eq_error_iff {s : String} {e : ConfigError} :
    parse s = .error e ↔ trim s.toList = [] ∧ e = .validation .blankEndpoint ∨
      trim s.toList = tcpScheme ∧ e = .validation (.tcpEndpoint "tcp://") := by
  constructor
  · intro h
    have hnames := names_parse s
    rw [h] at hnames
    generalize trim s.toList = cs at hnames
    cases hnames with
    | nothing => exact Or.inl ⟨rfl, rfl⟩
    | noAddress => exact Or.inr ⟨rfl, rfl⟩
  · rintro (⟨htrim, rfl⟩ | ⟨htrim, rfl⟩)
    · rw [parse, htrim]
      rfl
    · rw [parse, htrim]
      rfl

/-! ## Written forms -/

/-- The endpoint ends in no blank, and an address is there. -/
def Written : Endpoint → Prop
  | unix path => EndsSharp path.toList
  | tcp address => address.toList ≠ [] ∧ EndsSharp address.toList
  | stdio => True

/-- What a trimmed text names ends as the text does. -/
theorem Names.written {cs : List Char} {e : Endpoint} (h : Names cs (.ok e)) (hcs : EndsSharp cs) : e.Written := by
  cases h with
  | dash => trivial
  | stdio => trivial
  | tcp haddress =>
    rw [Written, String.toList_ofList]
    exact ⟨haddress, hcs.of_append⟩
  | unix path =>
    rw [Written, String.toList_ofList]
    exact hcs.of_append
  | bare =>
    rw [Written, String.toList_ofList]
    exact hcs

theorem written_of_parse {s : String} {e : Endpoint} (h : parse s = .ok e) : e.Written := by
  have hnames := names_parse s
  rw [h] at hnames
  exact hnames.written (endsSharp_trim _)

/-- The written form of such an endpoint is not trimmed any more. -/
theorem Written.trim_text {e : Endpoint} (h : e.Written) : trim e.text.toList = e.text.toList := by
  cases e with
  | stdio => decide
  | tcp address =>
    have hscheme : EndsSharp tcpScheme := by
      rintro _ ⟨⟩
      rfl
    rw [text, String.toList_append]
    exact trim_of_sharp rfl (hscheme.append h.2)
  | unix path =>
    have hscheme : EndsSharp unixScheme := by
      rintro _ ⟨⟩
      rfl
    rw [text, String.toList_append]
    exact trim_of_sharp rfl (hscheme.append h)

/-- The names of the standard streams start with other characters than the schemes. -/
theorem not_stdio_of_head {c : Char} {cs : List Char} (hdash : c ≠ '-') (hs : c ≠ 's') : ¬ (c :: cs = ['-'] ∨ c :: cs = "stdio".toList) := by
  rintro (h | h)
  · exact hdash (List.head_eq_of_cons_eq h)
  · exact hs (List.head_eq_of_cons_eq h)

/-- An address names itself behind its scheme. -/
theorem ofTrimmed_tcp {address : List Char} (h : address ≠ []) : ofTrimmed (tcpScheme ++ address) = .ok (.tcp (String.ofList address)) := by
  have hstdio : ¬ (tcpScheme ++ address = ['-'] ∨ tcpScheme ++ address = "stdio".toList) := not_stdio_of_head (by decide) (by decide)
  have hthere : ¬ (tcpScheme ++ address).isEmpty := Bool.false_ne_true
  have htcp : dropLead? tcpScheme (tcpScheme ++ address) = some address := dropLead?_eq_some_iff.mpr rfl
  rw [ofTrimmed, if_neg hthere, if_neg hstdio, htcp]
  cases address with
  | nil => exact absurd rfl h
  | cons c cs => rfl

/-- A path names itself behind its scheme, whatever it starts with. -/
theorem ofTrimmed_unix (path : List Char) : ofTrimmed (unixScheme ++ path) = .ok (.unix (String.ofList path)) := by
  have hstdio : ¬ (unixScheme ++ path = ['-'] ∨ unixScheme ++ path = "stdio".toList) := not_stdio_of_head (by decide) (by decide)
  have hthere : ¬ (unixScheme ++ path).isEmpty := Bool.false_ne_true
  have htcp : dropLead? tcpScheme (unixScheme ++ path) = none := rfl
  have hunix : dropLead? unixScheme (unixScheme ++ path) = some path := dropLead?_eq_some_iff.mpr rfl
  rw [ofTrimmed, if_neg hthere, if_neg hstdio, htcp, hunix]

theorem Written.parse_text {e : Endpoint} (h : e.Written) : parse e.text = .ok e := by
  rw [parse, h.trim_text]
  cases e with
  | stdio => rfl
  | tcp address =>
    rw [text, String.toList_append]
    exact (ofTrimmed_tcp h.1).trans (by rw [String.ofList_toList])
  | unix path =>
    rw [text, String.toList_append]
    exact (ofTrimmed_unix path.toList).trans (by rw [String.ofList_toList])

/-- **The written form is canonical.** A text fails to name an endpoint exactly if without the blanks around it nothing is left, or only the
scheme of an address. Whatever endpoint a text names, the written form of that endpoint names it again; so the endpoints that texts name
are those that their written forms give back. -/
theorem written_form_is_canonical :
    (∀ s e, parse s = .error e ↔ trim s.toList = [] ∧ e = .validation .blankEndpoint ∨
      trim s.toList = "tcp://".toList ∧ e = .validation (.tcpEndpoint "tcp://")) ∧
    (∀ s e, parse s = .ok e → parse e.text = .ok e) ∧
    ∀ e, (∃ s, parse s = .ok e) ↔ e.Written := by
  refine ⟨fun s e => parse_eq_error_iff, fun s e h => (written_of_parse h).parse_text, fun e => ⟨?_, fun h => ⟨e.text, h.parse_text⟩⟩⟩
  rintro ⟨s, h⟩
  exact written_of_parse h

/-- A path behind its scheme that is itself a scheme with blanks before it, a path that has no scheme, and one that is empty. -/
theorem paths_that_look_like_schemes_are_paths :
    (parse "unix:// tcp://a " = .ok (.unix " tcp://a") ∧ parse (unix " tcp://a").text = .ok (.unix " tcp://a")) ∧
    (parse "\u00a0run/editor.sock" = .ok (.unix "run/editor.sock") ∧ parse (unix "run/editor.sock").text = .ok (.unix "run/editor.sock")) ∧
    (parse " unix://\t" = .ok (.unix "") ∧ parse (unix "").text = .ok (.unix "")) := by
  obtain ⟨-, hagain, -⟩ := written_form_is_canonical
  have hblank : parse "unix:// tcp://a " = .ok (.unix " tcp://a") := by cbv
  have hbare : parse "\u00a0run/editor.sock" = .ok (.unix "run/editor.sock") := by cbv
  have hempty : parse " unix://\t" = .ok (.unix "") := by cbv
  exact ⟨⟨hblank, hagain _ _ hblank⟩, ⟨hbare, hagain _ _ hbare⟩, hempty, hagain _ _ hempty⟩

end EditorLink.Endpoint
