import Pagefold.Proofs.Directive.Extent
import Pagefold.Proofs.Json.Members
import Pagefold.Proofs.Json.Written

/-!
# Directives in the values of a context

A directive that a value inserts is not expanded, so the key of the value is recorded. This is so for
strings. A list or an object is inserted, too, and the strings in it are written as they are, but its
key is never recorded.

* `Json.isNested`: lists and objects;
* `Context.hasDirective_eq`: all other values are searched as they are inserted;
* `Context.mem_keysWithDirectives`: the key of a value is recorded if a directive is found in it;
* `Context.recorded_iff`: a directive that is inserted goes unrecorded just where it is part of a list
  or an object.
-/

namespace Pagefold

variable {context : Context} {k s raw : Text} {v : Json}

/-- Lists and objects. -/
def Json.isNested : Json → Bool
  | .array _ | .object _ => true
  | _ => false

namespace Context

/-- What is inserted for anything but a list or an object is searched for directives as it is. Names
and numbers have none. -/
theorem hasDirective_eq (h : v.isNested = false) :
    hasDirective v = Directive.occursIn (valueText v) := by
  have hnone {t : Text} (ht : '@' ∉ t) : false = Directive.occursIn t :=
    ((Directive.pattern.occursIn_eq_false_iff).2 (Directive.read?_of_not_mem ht)).symm
  cases v with
  | null => exact hnone (by decide)
  | bool b =>
    cases b with
    | true => exact hnone (by decide)
    | false => exact hnone (by decide)
  | number n => exact hnone n.at_not_mem_text
  | string s => rfl
  | array items => cases h
  | object members => cases h

theorem hasDirective_of_isNested (h : v.isNested = true) : hasDirective v = false := by
  cases v with
  | array items => rfl
  | object members => rfl
  | null => cases h
  | bool b => cases h
  | number n => cases h
  | string s => cases h

theorem valueText_of_isNested (h : v.isNested = true) : valueText v = v.text := by
  cases v with
  | string s => cases h
  | _ => rfl

/-! ## Keys -/

/-- Each key has one value, so it is recorded for that or not at all. -/
theorem mem_keysWithDirectives (h : Json.Ascending context) (hv : context.lookup k = some v) :
    k ∈ context.keysWithDirectives ↔ hasDirective v = true := by
  simp only [keysWithDirectives, List.mem_map, List.mem_filter]
  constructor
  · rintro ⟨⟨n, w⟩, ⟨hmem, hw⟩, rfl⟩
    rw [h.mem_iff, hv] at hmem
    cases hmem
    exact hw
  · intro hdirective
    exact ⟨(k, v), ⟨h.mem_iff.2 hv, hdirective⟩, rfl⟩

theorem parse_of_read (h : read (some raw) = .parsed context) :
    Json.parse raw = .ok (.object context) := by
  simp only [read] at h
  split at h
  · next members hparse =>
    cases h
    exact hparse
  · cases h
  · cases h

theorem ascending_of_read (h : read (some raw) = .parsed context) : Json.Ascending context := by
  cases Json.ordered_of_parse (parse_of_read h) with
  | object hmembers _ => exact hmembers

/-- A key is recorded if its value inserts a directive, unless the value is a list or an object. Such
a value inserts every directive that stands in one of its strings without quotes, backslashes and
control characters, and its key is not recorded. -/
theorem recorded_iff (h : read (some raw) = .parsed context) (hv : context.lookup k = some v) :
    (k ∈ context.keysWithDirectives ↔
      Directive.occursIn (context.insertion k) = true ∧ v.isNested = false) ∧
    (v.isNested = true → ∀ s, v.Holds s → (∀ c ∈ s, Json.IsVerbatim c) →
      Directive.occursIn s = true →
      Directive.occursIn (context.insertion k) = true ∧ k ∉ context.keysWithDirectives) := by
  have hinsertion : context.insertion k = valueText v := by rw [insertion, hv]; rfl
  have hkey := mem_keysWithDirectives (ascending_of_read h) hv
  rw [hinsertion, hkey]
  refine ⟨?_, ?_⟩
  · cases hnested : v.isNested with
    | false => rw [hasDirective_eq hnested, and_iff_left rfl]
    | true => simp [hasDirective_of_isNested hnested]
  · intro hnested s hs hverbatim hdirective
    rw [hasDirective_of_isNested hnested, valueText_of_isNested hnested]
    exact ⟨Directive.occursIn_of_infix (hs.written hverbatim) hdirective, Bool.false_ne_true⟩

/-- The members of an object with a directive in a list, as the name of a member. -/
def linked : Context :=
  [("links".toList, .array [.bool true, .object [("@@include('a')".toList, .null)]]),
    ("title".toList, .string "@@include('a')".toList)]

def linkedText : Text :=
  "\x7b\"title\": \"@@include('a')\", \"links\": [true, \x7b\"@@include('a')\": null\x7d]\x7d".toList

theorem recorded_iff_linked :
    read (some linkedText) = .parsed linked ∧
    "title".toList ∈ linked.keysWithDirectives ∧
    Directive.occursIn (linked.insertion "links".toList) = true ∧
    "links".toList ∉ linked.keysWithDirectives := by
  have hread : read (some linkedText) = .parsed linked := rfl
  have htitle : linked.lookup "title".toList = some (.string "@@include('a')".toList) := rfl
  have hlinks : linked.lookup "links".toList
      = some (.array [.bool true, .object [("@@include('a')".toList, .null)]]) := rfl
  have hholds : Json.Holds (.array [.bool true, .object [("@@include('a')".toList, .null)]])
      "@@include('a')".toList :=
    .array (List.mem_cons_of_mem _ List.mem_cons_self) (.name List.mem_cons_self)
  have hverbatim : ∀ c ∈ "@@include('a')".toList, Json.IsVerbatim c := by simp [Json.IsVerbatim]
  refine ⟨hread, (recorded_iff hread htitle).1.2 ⟨by decide, rfl⟩, ?_⟩
  exact (recorded_iff hread hlinks).2 rfl _ hholds hverbatim (by decide)

/-- The list in the value of the only key has a directive. -/
theorem unrecorded_list :
    ∃ context, read (some "\x7b\"k\": [\"@@include('a')\"]\x7d".toList) = .parsed context ∧
      ∃ k ∈ context.map Prod.fst, ¬ (k ∈ context.keysWithDirectives ↔
        Directive.occursIn (context.insertion k) = true) := by
  refine ⟨[("k".toList, .array [.string "@@include('a')".toList])], rfl, "k".toList, by decide, ?_⟩
  have hkeys : keysWithDirectives [("k".toList, .array [.string "@@include('a')".toList])] = [] := rfl
  rw [hkeys]
  decide

end Context

end Pagefold
