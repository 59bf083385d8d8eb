import Mathlib.Data.List.Induction
import Shadowsocks.Browser.Tabs
import Shadowsocks.Library.Run

/-!
The network indicator of SWBNetworkActivityIndicatorManager.m, and what SWBWebViewContainer.m tells
it when a page starts or ends to load. A source that is reported as busy when it is known to be is
taken for idle.
-/
namespace Shadowsocks

open Run

universe u

/-- `sources` stands for a set, and `visible` is the `networkActivityIndicatorVisible` of the
application. -/
structure NetworkActivityIndicatorManager (Source : Type u) where
  sources : List Source
  visible : Bool

namespace NetworkActivityIndicatorManager

variable {Source : Type u} [DecidableEq Source] {m : NetworkActivityIndicatorManager Source}
  {calls : List (Source × Bool)} {source other : Source} {busy : Bool}

def start : NetworkActivityIndicatorManager Source := ⟨[], false⟩

/-- The second branch is also that of a busy source that is in the set. -/
def setSourceActivityStatusIsBusy (m : NetworkActivityIndicatorManager Source) (source : Source)
    (busy : Bool) : NetworkActivityIndicatorManager Source :=
  let sources :=
    if busy = true ∧ source ∉ m.sources then m.sources.insert source
    else if source ∈ m.sources then m.sources.filter (· ≠ source)
    else m.sources
  ⟨sources, decide (0 < sources.length)⟩

def report (m : NetworkActivityIndicatorManager Source) (call : Source × Bool) :
    NetworkActivityIndicatorManager Source :=
  m.setSourceActivityStatusIsBusy call.1 call.2

/-- The last call for the source says that it is busy. -/
def LastBusy (calls : List (Source × Bool)) (source : Source) : Prop :=
  calls.reverse.find? (·.1 = source) = some (source, true)

/-- How often the source has been reported as busy since it was last reported as idle. -/
def busyReports (calls : List (Source × Bool)) (source : Source) : Nat :=
  ((calls.reverse.filter (·.1 = source)).takeWhile Prod.snd).length

theorem mem_setSourceActivityStatusIsBusy :
    source ∈ (m.setSourceActivityStatusIsBusy other busy).sources ↔
      if other = source then busy = true ∧ source ∉ m.sources else source ∈ m.sources := by
  rcases eq_or_ne other source with rfl | hne
  · rw [if_pos rfl]
    simp only [setSourceActivityStatusIsBusy]
    split_ifs with hadd hmem
    · exact ⟨fun _ => hadd, fun _ => List.mem_insert_self ..⟩
    · exact ⟨fun hin => by simp at hin, fun hbusy => (hbusy.2 hmem).elim⟩
    · exact ⟨fun hin => (hmem hin).elim, fun hbusy => (hadd hbusy).elim⟩
  · rw [if_neg hne]
    simp only [setSourceActivityStatusIsBusy]
    split_ifs
    · rw [List.mem_insert_iff]
      exact or_iff_right hne.symm
    · rw [List.mem_filter]
      exact and_iff_left (decide_eq_true hne.symm)
    · rfl

/-- The report of a busy source twice in a row is no report. -/
theorem mem_sources_busy_twice : other ∈ ((m.setSourceActivityStatusIsBusy source
    true).setSourceActivityStatusIsBusy source true).sources ↔ other ∈ m.sources := by
  simp only [mem_setSourceActivityStatusIsBusy]
  split_ifs with heq
  · subst heq
    simp
  · rfl

/-- The indicator is visible when there is a busy source. -/
def Lit (m : NetworkActivityIndicatorManager Source) : Prop :=
  m.visible = true ↔ ∃ source, source ∈ m.sources

theorem lit_setSourceActivityStatusIsBusy (m : NetworkActivityIndicatorManager Source)
    (source : Source) (busy : Bool) : (m.setSourceActivityStatusIsBusy source busy).Lit := by
  simp only [Lit, setSourceActivityStatusIsBusy, decide_eq_true_eq]
  exact List.length_pos_iff_exists_mem

theorem lit_after (calls : List (Source × Bool)) : (after report start calls).Lit := by
  apply always
  · exact fun m call _ => lit_setSourceActivityStatusIsBusy ..
  · simp [Lit, start]

theorem lastBusy_concat : LastBusy (calls ++ [(other, busy)]) source ↔
    if other = source then busy = true else LastBusy calls source := by
  simp only [LastBusy, List.reverse_concat, List.find?_cons]
  split_ifs with heq
  · subst heq
    simp
  · simp [heq]

theorem busyReports_concat : busyReports (calls ++ [(other, busy)]) source =
    if other = source then (if busy = true then busyReports calls source + 1 else 0)
    else busyReports calls source := by
  rcases eq_or_ne other source with rfl | hne
  · cases busy <;> simp [busyReports]
  · simp [busyReports, hne]

theorem lastBusy_iff (calls : List (Source × Bool)) (source : Source) :
    LastBusy calls source ↔ 0 < busyReports calls source := by
  induction calls using List.reverseRecOn with
  | nil => simp [LastBusy, busyReports]
  | append_singleton calls call ih =>
    obtain ⟨other, busy⟩ := call
    rw [lastBusy_concat, busyReports_concat]
    split_ifs with heq hbusy
    · exact ⟨fun _ => Nat.succ_pos _, fun _ => hbusy⟩
    · exact ⟨fun h => (hbusy h).elim, fun h => (Nat.lt_irrefl 0 h).elim⟩
    · exact ih

/-- Every other report of a busy source puts it into the set. -/
theorem mem_sources_iff (calls : List (Source × Bool)) (source : Source) :
    source ∈ (after report start calls).sources ↔ busyReports calls source % 2 = 1 := by
  induction calls using List.reverseRecOn with
  | nil => simp [start, busyReports]
  | append_singleton calls call ih =>
    obtain ⟨other, busy⟩ := call
    rw [after_append, busyReports_concat]
    simp only [after_cons, after_nil, report, mem_setSourceActivityStatusIsBusy]
    split_ifs with heq hbusy
    · rw [ih, and_iff_right hbusy]
      omega
    · exact ⟨fun h => (hbusy h.1).elim, fun h => by simp at h⟩
    · exact ih

/-- The set and the indicator tell which sources were last reported as busy. -/
structure Reflects (m : NetworkActivityIndicatorManager Source) (calls : List (Source × Bool)) :
    Prop where
  busy : ∀ source, source ∈ m.sources ↔ LastBusy calls source
  visible : m.visible = true ↔ ∃ source, LastBusy calls source

theorem reflects_iff (calls : List (Source × Bool)) :
    (after report start calls).Reflects calls ↔
      ∀ source, busyReports calls source % 2 = 0 → busyReports calls source = 0 := by
  constructor
  · intro h source heven
    by_contra hne
    have hlast := (lastBusy_iff calls source).mpr (Nat.pos_of_ne_zero hne)
    have hodd := (mem_sources_iff calls source).mp ((h.busy source).mpr hlast)
    omega
  · intro h
    have hbusy : ∀ source, source ∈ (after report start calls).sources ↔
        LastBusy calls source := by
      intro source
      have hzero := h source
      rw [mem_sources_iff, lastBusy_iff]
      omega
    exact ⟨hbusy, (lit_after calls).trans (exists_congr hbusy)⟩

/-- Two pages of one container start to load. -/
theorem not_reflects :
    ¬ ∀ calls : List (Nat × Bool), (after report start calls).Reflects calls := by
  intro hall
  have hmem := ((hall [(0, true), (0, true)]).busy 0).mpr rfl
  exact absurd hmem (by decide)

end NetworkActivityIndicatorManager

namespace WebViewContainer

open NetworkActivityIndicatorManager

variable {Source : Type u} [DecidableEq Source] {c : WebViewContainer} {other : Source}
  {loading loading' : WebView → Bool}

/-- Told by every web view that starts or ends to load, or fails to. -/
def setNetworkIndicatorStatus (c : WebViewContainer) (self : Source) (loading : WebView → Bool)
    (m : NetworkActivityIndicatorManager Source) : NetworkActivityIndicatorManager Source :=
  m.setSourceActivityStatusIsBusy self (c.cachedWebViews.any loading)

/-- A second page that starts to load while the first one does undoes what the first one did. -/
theorem mem_sources_two_pages (self : Source) (m : NetworkActivityIndicatorManager Source)
    (hfirst : ∃ webView ∈ c.cachedWebViews, loading webView = true)
    (hsecond : ∃ webView ∈ c.cachedWebViews, loading' webView = true) :
    other ∈ (c.setNetworkIndicatorStatus self loading'
      (c.setNetworkIndicatorStatus self loading m)).sources ↔ other ∈ m.sources := by
  simp only [setNetworkIndicatorStatus, List.any_eq_true.mpr hfirst, List.any_eq_true.mpr hsecond]
  exact mem_sources_busy_twice

end WebViewContainer

end Shadowsocks
