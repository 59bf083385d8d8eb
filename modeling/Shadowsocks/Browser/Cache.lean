import Shadowsocks.Browser.Steps
import Shadowsocks.Library.Recency

/-!
The web views that SWBWebViewContainer.m keeps. The one that was shown longest ago makes room for
a new one; a tab that is closed when its web view is gone gets a new one too, only to close it.
-/
namespace Shadowsocks

open Recency Run

namespace WebViewContainer

def newWebView (c : WebViewContainer) (tag : Nat) : WebViewContainer :=
  let (c, webView) := c.getANewWebView tag
  c.switchToWebViewWithWebView webView

def switchToWebView (c : WebViewContainer) (tag : Nat) : WebViewContainer :=
  let (c, webView) := c.webViewByTag tag
  if c.currentWebView = some webView then c else c.switchToWebViewWithWebView webView

end WebViewContainer

theorem ViewController.switchToWebView_webViewContainer (v : ViewController) (tag : Nat) :
    (v.switchToWebView tag).webViewContainer = v.webViewContainer.switchToWebView tag := by
  simp only [ViewController.switchToWebView, WebViewContainer.switchToWebView]
  split <;> rfl

/-- What the container is asked for. -/
inductive Viewing
  | newWebView (tag : Nat)
  | switchToWebView (tag : Nat)
  | closeWebView (tag : Nat)
  | releaseBackgroundWebViews

/-- `shown` has the web views that have been shown, the last one at the end. -/
structure Screen where
  container : WebViewContainer
  shown : List WebView

namespace Screen

def start : Screen := ⟨⟨[], none, 0⟩, []⟩

/-- The current web view of the container is shown. -/
def look (s : Screen) (c : WebViewContainer) : Screen := ⟨c, s.shown ++ c.currentWebView.toList⟩

def step (s : Screen) : Viewing → Screen
  | .newWebView tag => s.look (s.container.newWebView tag)
  | .switchToWebView tag => s.look (s.container.switchToWebView tag)
  | .closeWebView tag => { s with container := s.container.closeWebView tag }
  | .releaseBackgroundWebViews => { s with container := s.container.releaseBackgroundWebViews }

end Screen

namespace WebViewContainer

variable {c : WebViewContainer} {tag : Nat} {webView : WebView}

/-- No web view in the cache has the tag. -/
def Lacks (c : WebViewContainer) (tag : Nat) : Prop :=
  ∀ webView ∈ c.cachedWebViews, webView.tag ≠ tag

instance : Decidable (c.Lacks tag) := inferInstanceAs (Decidable (∀ _ ∈ _, _))

structure Tidy (c : WebViewContainer) : Prop where
  distinct : (c.cachedWebViews.map WebView.tag).Nodup
  bounded : c.cachedWebViews.length ≤ kMaxCachedWebViews
  current : ∀ webView, c.currentWebView = some webView →
    c.cachedWebViews.getLast? = some webView

/-- What is left of the cache when there is room for one more. -/
def withRoom (c : WebViewContainer) : List WebView :=
  c.cachedWebViews.drop (c.cachedWebViews.length + 1 - kMaxCachedWebViews)

theorem withRoom_sublist (c : WebViewContainer) : c.withRoom.Sublist c.cachedWebViews :=
  List.drop_sublist ..

theorem withRoom_of_lt (h : c.cachedWebViews.length < kMaxCachedWebViews) :
    c.withRoom = c.cachedWebViews := by
  have hnone : c.cachedWebViews.length + 1 - kMaxCachedWebViews = 0 := by omega
  simp [withRoom, hnone]

/-- The filter that takes a web view out of the cache. -/
theorem filter_ne_of_notMem {l : List WebView} (h : webView ∉ l) :
    l.filter (· ≠ webView) = l := by
  apply List.filter_eq_self.mpr
  intro other hmem
  simpa using ne_of_mem_of_not_mem hmem h

theorem filter_ne_concat {l : List WebView} (h : webView ∉ l) :
    (l ++ [webView]).filter (· ≠ webView) = l := by
  simpa using filter_ne_of_notMem h

namespace Tidy

theorem eq_of_tag (h : c.Tidy) {other : WebView} (hmem : webView ∈ c.cachedWebViews)
    (hother : other ∈ c.cachedWebViews) (htag : other.tag = webView.tag) : other = webView :=
  List.inj_on_of_nodup_map h.distinct hother hmem htag

theorem length_withRoom (h : c.Tidy) : c.withRoom.length < kMaxCachedWebViews := by
  have hbounded := h.bounded
  simp only [withRoom, List.length_drop, kMaxCachedWebViews] at *
  omega

/-- Only the first one goes, and only when the cache is full. -/
theorem cachedWebViews_eq (h : c.Tidy) (hfull : ¬ c.cachedWebViews.length < kMaxCachedWebViews) :
    ∃ oldest, c.cachedWebViews = oldest :: c.withRoom ∧ oldest ∉ c.withRoom := by
  have hdistinct := List.Nodup.of_map _ h.distinct
  have hone : c.cachedWebViews.length + 1 - kMaxCachedWebViews = 1 := by
    have hbounded := h.bounded
    omega
  simp only [withRoom, hone]
  cases hcached : c.cachedWebViews with
  | nil => simp [hcached, kMaxCachedWebViews] at hfull
  | cons oldest rest =>
    rw [hcached] at hdistinct
    exact ⟨oldest, rfl, (List.nodup_cons.mp hdistinct).1⟩

theorem getANewWebView_eq (h : c.Tidy) (tag : Nat) :
    c.getANewWebView tag =
      ({ c with cachedWebViews := c.withRoom ++ [⟨c.next, tag⟩], next := c.next + 1 },
        ⟨c.next, tag⟩) := by
  by_cases hroom : c.cachedWebViews.length < kMaxCachedWebViews
  · simp [getANewWebView, if_neg (Nat.not_le_of_lt hroom), withRoom_of_lt hroom]
  · obtain ⟨oldest, hcached, hnotMem⟩ := h.cachedWebViews_eq hroom
    have hremove : c.removeAWebView oldest = { c with cachedWebViews := c.withRoom } := by
      have hrest := filter_ne_of_notMem hnotMem
      simpa [removeAWebView, hcached] using hrest
    have hhead : c.cachedWebViews.head? = some oldest := by simp [hcached]
    simp only [getANewWebView, if_pos (Nat.le_of_not_lt hroom), hhead, Option.elim_some, hremove]

theorem webViewByTag_of_mem (h : c.Tidy) (hmem : webView ∈ c.cachedWebViews) :
    c.webViewByTag webView.tag = (c, webView) := by
  have hfound : (c.cachedWebViews.find? (·.tag = webView.tag)).isSome := by
    simpa using ⟨webView, hmem, rfl⟩
  obtain ⟨found, hfind⟩ := Option.isSome_iff_exists.mp hfound
  have htag : found.tag = webView.tag := by simpa using List.find?_some hfind
  rw [h.eq_of_tag hmem (List.mem_of_find?_eq_some hfind) htag] at hfind
  simp [webViewByTag, hfind]

end Tidy

theorem webViewByTag_of_lacks (hlacks : c.Lacks tag) :
    c.webViewByTag tag = c.getANewWebView tag := by
  have hfind : c.cachedWebViews.find? (·.tag = tag) = none := by
    simpa [Lacks] using hlacks
  simp [webViewByTag, hfind]

/-- A web view with the tag is in the cache, or there is none. -/
theorem lacks_or_mem (c : WebViewContainer) (tag : Nat) :
    c.Lacks tag ∨ ∃ webView ∈ c.cachedWebViews, webView.tag = tag := by
  by_cases hlacks : c.Lacks tag
  · exact Or.inl hlacks
  · simp only [Lacks, not_forall, not_not] at hlacks
    obtain ⟨webView, hmem, htag⟩ := hlacks
    exact Or.inr ⟨webView, hmem, htag⟩

theorem Lacks.notMem (hlacks : c.Lacks tag) (id : Nat) : ⟨id, tag⟩ ∉ c.cachedWebViews :=
  fun hmem => hlacks _ hmem rfl

/-- Which web view is current makes no difference to the search. -/
theorem webViewByTag_leave (c : WebViewContainer) (tag : Nat) :
    ({ c with currentWebView := none } : WebViewContainer).webViewByTag tag =
      ({ (c.webViewByTag tag).1 with currentWebView := none }, (c.webViewByTag tag).2) := by
  cases hfind : c.cachedWebViews.find? (·.tag = tag) with
  | some webView => simp [webViewByTag, hfind]
  | none =>
    simp only [webViewByTag, hfind, getANewWebView]
    split
    · cases c.cachedWebViews.head? <;> rfl
    · rfl

theorem closeWebView_cachedWebViews (c : WebViewContainer) (tag : Nat) :
    (c.closeWebView tag).cachedWebViews =
      (c.webViewByTag tag).1.cachedWebViews.filter (· ≠ (c.webViewByTag tag).2) := by
  simp only [closeWebView]
  split
  · simp only [webViewByTag_leave, removeAWebView]
  · rfl

/-- What is closed is no longer shown, and nothing else is. -/
theorem of_closeWebView (h : (c.closeWebView tag).currentWebView = some webView) :
    c.currentWebView = some webView ∧ webView.tag ≠ tag := by
  simp only [closeWebView, removeAWebView] at h
  split at h
  · simp [webViewByTag_leave] at h
  · rename_i hne
    rw [(webViewByTag_spec c tag).2] at h
    refine ⟨h, ?_⟩
    rintro rfl
    simp [h] at hne

namespace Tidy

theorem newWebView_eq (h : c.Tidy) (hlacks : c.Lacks tag) :
    c.newWebView tag =
      { cachedWebViews := c.withRoom ++ [⟨c.next, tag⟩]
        currentWebView := some ⟨c.next, tag⟩
        next := c.next + 1 } := by
  have hnotMem : ⟨c.next, tag⟩ ∉ c.withRoom := fun hmem =>
    hlacks.notMem c.next (c.withRoom_sublist.subset hmem)
  simp only [newWebView, h.getANewWebView_eq, switchToWebViewWithWebView]
  rw [filter_ne_concat hnotMem]

/-- Nothing is done when the web view is shown already, and nothing would change. -/
theorem switchToWebView_of_mem (h : c.Tidy) (hmem : webView ∈ c.cachedWebViews) :
    c.switchToWebView webView.tag = c.switchToWebViewWithWebView webView := by
  simp only [switchToWebView, h.webViewByTag_of_mem hmem]
  split
  · rename_i hcurrent
    obtain ⟨older, hcached⟩ := List.getLast?_eq_some_iff.mp (h.current webView hcurrent)
    have hnotMem : webView ∉ older := by
      have hdistinct := List.Nodup.of_map _ h.distinct
      rw [hcached] at hdistinct
      intro hold
      exact (List.nodup_append.mp hdistinct).2.2 _ hold _ (List.mem_singleton_self _) rfl
    rw [switchToWebViewWithWebView, hcached, filter_ne_concat hnotMem, ← hcached, ← hcurrent]
  · rfl

theorem switchToWebView_of_lacks (h : c.Tidy) (hlacks : c.Lacks tag) :
    c.switchToWebView tag = c.newWebView tag := by
  simp only [switchToWebView, newWebView, webViewByTag_of_lacks hlacks, h.getANewWebView_eq]
  split
  · rename_i hcurrent
    exact (hlacks.notMem c.next (List.mem_of_getLast? (h.current _ hcurrent))).elim
  · rfl

theorem closeWebView_of_mem (h : c.Tidy) (hmem : webView ∈ c.cachedWebViews) :
    (c.closeWebView webView.tag).cachedWebViews = c.cachedWebViews.filter (· ≠ webView) := by
  rw [closeWebView_cachedWebViews, h.webViewByTag_of_mem hmem]

/-- The web view that is made for the tag goes at once; what made room for it is gone. -/
theorem closeWebView_of_lacks (h : c.Tidy) (hlacks : c.Lacks tag) :
    (c.closeWebView tag).cachedWebViews = c.withRoom := by
  rw [closeWebView_cachedWebViews, webViewByTag_of_lacks hlacks, h.getANewWebView_eq]
  apply filter_ne_concat
  exact fun hmem => hlacks.notMem c.next (c.withRoom_sublist.subset hmem)

/-! Every action keeps the cache tidy. -/

theorem newWebView (h : c.Tidy) (hlacks : c.Lacks tag) : (c.newWebView tag).Tidy := by
  rw [h.newWebView_eq hlacks]
  refine ⟨?_, ?_, ?_⟩
  · rw [List.map_append]
    refine List.nodup_append.mpr
      ⟨h.distinct.sublist (c.withRoom_sublist.map _), List.nodup_singleton _, ?_⟩
    rintro _ hold _ hnew rfl
    obtain ⟨webView, hmem, htag⟩ := List.mem_map.mp hold
    exact hlacks webView (c.withRoom_sublist.subset hmem) (htag.trans (List.mem_singleton.mp hnew))
  · have hroom := h.length_withRoom
    simp only [List.length_append, List.length_singleton]
    omega
  · intro webView hcurrent
    cases hcurrent
    exact List.getLast?_concat ..

theorem switchToWebViewWithWebView (h : c.Tidy) (hmem : webView ∈ c.cachedWebViews) :
    (c.switchToWebViewWithWebView webView).Tidy := by
  have hperm : (c.cachedWebViews.filter (· ≠ webView) ++ [webView]).Perm c.cachedWebViews := by
    have herase : c.cachedWebViews.filter (· ≠ webView) = c.cachedWebViews.erase webView := by
      rw [(List.Nodup.of_map _ h.distinct).erase_eq_filter]
      apply List.filter_congr
      intro other _
      rw [Bool.eq_iff_iff, decide_eq_true_iff, bne_iff_ne]
    rw [herase]
    exact (List.perm_append_singleton ..).trans (List.perm_cons_erase hmem).symm
  refine ⟨?_, ?_, ?_⟩
  · exact ((hperm.map _).nodup_iff).mpr h.distinct
  · exact hperm.length_eq.trans_le h.bounded
  · intro other hcurrent
    cases hcurrent
    exact List.getLast?_concat ..

theorem switchToWebView (h : c.Tidy) (tag : Nat) : (c.switchToWebView tag).Tidy := by
  rcases c.lacks_or_mem tag with hlacks | ⟨webView, hmem, rfl⟩
  · rw [h.switchToWebView_of_lacks hlacks]
    exact h.newWebView hlacks
  · rw [h.switchToWebView_of_mem hmem]
    exact h.switchToWebViewWithWebView hmem

/-- The last one stays when some of the first ones go. -/
theorem getLast?_drop (h : c.Tidy) (hcurrent : c.currentWebView = some webView) {n : Nat}
    (hn : n ≤ c.cachedWebViews.length - 1) :
    (c.cachedWebViews.drop n).getLast? = some webView := by
  have hlast := h.current webView hcurrent
  have hlength := List.length_pos_of_mem (List.mem_of_getLast? hlast)
  rw [List.getLast?_drop, if_neg (by omega)]
  exact hlast

theorem closeWebView (h : c.Tidy) (tag : Nat) : (c.closeWebView tag).Tidy := by
  rcases c.lacks_or_mem tag with hlacks | ⟨closed, hmem, rfl⟩
  · have hcached := h.closeWebView_of_lacks hlacks
    refine ⟨?_, ?_, ?_⟩
    · rw [hcached]
      exact h.distinct.sublist (c.withRoom_sublist.map _)
    · rw [hcached]
      exact h.length_withRoom.le
    · intro webView hcurrent
      rw [hcached]
      apply h.getLast?_drop (of_closeWebView hcurrent).1
      have hbounded := h.bounded
      simp only [kMaxCachedWebViews] at *
      omega
  · have hcached := h.closeWebView_of_mem hmem
    refine ⟨?_, ?_, ?_⟩
    · rw [hcached]
      exact h.distinct.sublist (List.filter_sublist.map _)
    · rw [hcached]
      exact (List.length_filter_le ..).trans h.bounded
    · intro webView hcurrent
      obtain ⟨hview, hne⟩ := of_closeWebView hcurrent
      obtain ⟨older, holder⟩ := List.getLast?_eq_some_iff.mp (h.current webView hview)
      have hother : webView ≠ closed := by
        rintro rfl
        exact hne rfl
      rw [hcached, holder, List.filter_append]
      simp [hother]

theorem releaseBackgroundWebViews (h : c.Tidy) : c.releaseBackgroundWebViews.Tidy := by
  refine ⟨?_, ?_, ?_⟩
  · exact h.distinct.sublist ((List.drop_sublist ..).map _)
  · exact (List.drop_sublist ..).length_le.trans h.bounded
  · intro webView hcurrent
    apply h.getLast?_drop hcurrent
    simp only [kMinCachedWebViews]
    omega

end Tidy

end WebViewContainer

namespace Screen

open WebViewContainer

variable {s : Screen} {tag : Nat} {webView : WebView}

/-- A new web view is asked for with a tag that no web view in the cache has. -/
def Fresh (s : Screen) : Viewing → Prop
  | .newWebView tag => s.container.Lacks tag
  | _ => True

/-- What is closed is in the cache, or there is room for it. -/
def HasRoom (s : Screen) : Viewing → Prop
  | .closeWebView tag =>
    s.container.Lacks tag → s.container.cachedWebViews.length < kMaxCachedWebViews
  | _ => True

instance : ∀ (s : Screen) (a : Viewing), Decidable (s.Fresh a)
  | s, .newWebView tag => inferInstanceAs (Decidable (s.container.Lacks tag))
  | _, .switchToWebView _ => inferInstanceAs (Decidable True)
  | _, .closeWebView _ => inferInstanceAs (Decidable True)
  | _, .releaseBackgroundWebViews => inferInstanceAs (Decidable True)

instance : ∀ (s : Screen) (a : Viewing), Decidable (s.HasRoom a)
  | s, .closeWebView tag =>
    inferInstanceAs (Decidable (s.container.Lacks tag →
      s.container.cachedWebViews.length < kMaxCachedWebViews))
  | _, .newWebView _ => inferInstanceAs (Decidable True)
  | _, .switchToWebView _ => inferInstanceAs (Decidable True)
  | _, .releaseBackgroundWebViews => inferInstanceAs (Decidable True)

/-- The cache is tidy and has its web views in the order in which they were last shown. -/
structure Steady (s : Screen) : Prop where
  tidy : s.container.Tidy
  recent : Ordered s.shown s.container.cachedWebViews

theorem steady_start : start.Steady :=
  ⟨⟨List.nodup_nil, Nat.zero_le _, fun _ hcurrent => nomatch hcurrent⟩, Ordered.nil⟩

namespace Steady

theorem step_newWebView (h : s.Steady) (hlacks : s.container.Lacks tag) :
    s.step (.newWebView tag) =
      { container :=
          { cachedWebViews := s.container.withRoom ++ [⟨s.container.next, tag⟩]
            currentWebView := some ⟨s.container.next, tag⟩
            next := s.container.next + 1 }
        shown := s.shown ++ [⟨s.container.next, tag⟩] } := by
  simp only [step, look, h.tidy.newWebView_eq hlacks, Option.toList_some]

theorem step_switchToWebView_of_lacks (h : s.Steady) (hlacks : s.container.Lacks tag) :
    s.step (.switchToWebView tag) = s.step (.newWebView tag) := by
  simp only [step, h.tidy.switchToWebView_of_lacks hlacks]

theorem step_switchToWebView_of_mem (h : s.Steady)
    (hmem : webView ∈ s.container.cachedWebViews) :
    s.step (.switchToWebView webView.tag) =
      { container := s.container.switchToWebViewWithWebView webView
        shown := s.shown ++ [webView] } := by
  simp only [step, look, h.tidy.switchToWebView_of_mem hmem]
  rfl

theorem newWebView (h : s.Steady) (hlacks : s.container.Lacks tag) :
    (s.step (.newWebView tag)).Steady := by
  refine ⟨h.tidy.newWebView hlacks, ?_⟩
  rw [h.step_newWebView hlacks]
  apply (h.recent.sublist s.container.withRoom_sublist).concat
  exact fun hmem => hlacks.notMem _ (s.container.withRoom_sublist.subset hmem)

theorem switchToWebView (h : s.Steady) (tag : Nat) : (s.step (.switchToWebView tag)).Steady := by
  rcases s.container.lacks_or_mem tag with hlacks | ⟨webView, hmem, rfl⟩
  · rw [h.step_switchToWebView_of_lacks hlacks]
    exact h.newWebView hlacks
  · refine ⟨h.tidy.switchToWebView webView.tag, ?_⟩
    rw [h.step_switchToWebView_of_mem hmem]
    exact h.recent.touch webView

theorem closeWebView (h : s.Steady) (tag : Nat) : (s.step (.closeWebView tag)).Steady := by
  refine ⟨h.tidy.closeWebView tag, h.recent.sublist ?_⟩
  rcases s.container.lacks_or_mem tag with hlacks | ⟨webView, hmem, rfl⟩
  · exact (h.tidy.closeWebView_of_lacks hlacks).symm ▸ s.container.withRoom_sublist
  · exact (h.tidy.closeWebView_of_mem hmem).symm ▸ List.filter_sublist

theorem releaseBackgroundWebViews (h : s.Steady) : (s.step .releaseBackgroundWebViews).Steady :=
  ⟨h.tidy.releaseBackgroundWebViews, h.recent.sublist (List.drop_sublist ..)⟩

end Steady

theorem steady_step (s : Screen) (a : Viewing) (h : s.Steady) (hfresh : s.Fresh a) :
    (s.step a).Steady := by
  cases a with
  | newWebView tag => exact h.newWebView hfresh
  | switchToWebView tag => exact h.switchToWebView tag
  | closeWebView tag => exact h.closeWebView tag
  | releaseBackgroundWebViews => exact h.releaseBackgroundWebViews

/-- Closing may disturb what is cached, but not the order of what stays. -/
theorem steady_after {as : List Viewing} (hfresh : Along step Fresh start as) :
    (after step start as).Steady := invariant steady_step steady_start hfresh

/-- The web view has not been shown for the longest time, and goes for one that stays. -/
structure MakesRoom (s s' : Screen) (tag : Nat) (webView : WebView) : Prop where
  full : s.container.cachedWebViews.length = kMaxCachedWebViews
  oldest : ∀ other ∈ s.container.cachedWebViews, other ≠ webView → Newer s.shown webView other
  stays : ∃ new ∈ s'.container.cachedWebViews, new.tag = tag ∧ new ∉ s.container.cachedWebViews

/-- Only one web view can have to go. -/
theorem MakesRoom.unique {s' : Screen} {other : WebView} (h : s.MakesRoom s' tag webView)
    (hother : s.MakesRoom s' tag other) (hmem : webView ∈ s.container.cachedWebViews)
    (hmem' : other ∈ s.container.cachedWebViews) : other = webView := by
  by_contra hne
  exact (h.oldest other hmem' hne).asymm (hother.oldest webView hmem (Ne.symm hne))

/-- What the step does to the cache: the cache is tidy after it, and no web view is lost without
need. -/
structure Orderly (s : Screen) (a : Viewing) : Prop where
  tidy : (s.step a).container.Tidy
  visible : ∀ webView, s.container.currentWebView = some webView →
    a ≠ .closeWebView webView.tag → webView ∈ (s.step a).container.cachedWebViews
  evicted : ∀ tag, a = .newWebView tag ∨ a = .switchToWebView tag →
    ∀ webView ∈ s.container.cachedWebViews,
      webView ∉ (s.step a).container.cachedWebViews → s.MakesRoom (s.step a) tag webView
  closed : ∀ tag, a = .closeWebView tag → ∀ webView ∈ s.container.cachedWebViews,
    webView.tag ≠ tag → webView ∈ (s.step a).container.cachedWebViews
  released : a = .releaseBackgroundWebViews → ∀ webView ∈ s.container.cachedWebViews,
    webView ∉ (s.step a).container.cachedWebViews →
      ∀ kept ∈ (s.step a).container.cachedWebViews, Newer s.shown webView kept

namespace Steady

/-- The current web view is not the one that makes room. -/
theorem visible_newWebView (h : s.Steady) (hlacks : s.container.Lacks tag)
    (hcurrent : s.container.currentWebView = some webView) :
    webView ∈ (s.step (.newWebView tag)).container.cachedWebViews := by
  rw [h.step_newWebView hlacks]
  apply List.mem_append_left
  apply List.mem_of_getLast?
  apply h.tidy.getLast?_drop hcurrent
  have hbounded := h.tidy.bounded
  simp only [kMaxCachedWebViews] at *
  omega

theorem makesRoom_newWebView (h : s.Steady) (hlacks : s.container.Lacks tag)
    (hmem : webView ∈ s.container.cachedWebViews)
    (hgone : webView ∉ (s.step (.newWebView tag)).container.cachedWebViews) :
    s.MakesRoom (s.step (.newWebView tag)) tag webView := by
  rw [h.step_newWebView hlacks] at hgone ⊢
  have hnotMem : webView ∉ s.container.withRoom := fun hroom =>
    hgone (List.mem_append_left _ hroom)
  have hfull : ¬ s.container.cachedWebViews.length < kMaxCachedWebViews := by
    intro hlt
    rw [withRoom_of_lt hlt] at hnotMem
    exact hnotMem hmem
  obtain ⟨oldest, hcached, _⟩ := h.tidy.cachedWebViews_eq hfull
  have holdest : webView = oldest := by
    rw [hcached] at hmem
    exact (List.mem_cons.mp hmem).resolve_right hnotMem
  subst holdest
  have hrecent := h.recent
  rw [hcached] at hrecent
  refine ⟨Nat.le_antisymm h.tidy.bounded (Nat.le_of_not_lt hfull), ?_, ?_⟩
  · intro other hother hne
    rw [hcached] at hother
    exact (List.pairwise_cons.mp hrecent).1 other ((List.mem_cons.mp hother).resolve_left hne)
  · exact ⟨_, List.mem_append_right _ (List.mem_singleton_self _), rfl, hlacks.notMem _⟩

/-- Nothing leaves the cache when what is shown is in it. -/
theorem mem_switchToWebView (h : s.Steady) (hmem : webView ∈ s.container.cachedWebViews)
    {other : WebView} (hother : other ∈ s.container.cachedWebViews) :
    other ∈ (s.step (.switchToWebView webView.tag)).container.cachedWebViews := by
  rw [h.step_switchToWebView_of_mem hmem]
  by_cases heq : other = webView
  · exact List.mem_append_right _ (List.mem_singleton.mpr heq)
  · exact List.mem_append_left _ (List.mem_filter.mpr ⟨hother, by simpa using heq⟩)

theorem orderly_newWebView (h : s.Steady) (hlacks : s.container.Lacks tag) :
    s.Orderly (.newWebView tag) where
  tidy := h.tidy.newWebView hlacks
  visible _ hcurrent _ := h.visible_newWebView hlacks hcurrent
  evicted := by
    rintro _ (heq | heq) webView hmem hgone <;> cases heq
    exact h.makesRoom_newWebView hlacks hmem hgone
  closed _ heq := nomatch heq
  released heq := nomatch heq

theorem orderly_switchToWebView (h : s.Steady) (tag : Nat) : s.Orderly (.switchToWebView tag) where
  tidy := h.tidy.switchToWebView tag
  visible webView hcurrent _ := by
    rcases s.container.lacks_or_mem tag with hlacks | ⟨shown, hmem, rfl⟩
    · rw [h.step_switchToWebView_of_lacks hlacks]
      exact h.visible_newWebView hlacks hcurrent
    · exact h.mem_switchToWebView hmem (List.mem_of_getLast? (h.tidy.current _ hcurrent))
  evicted := by
    rintro _ (heq | heq) webView hmem hgone <;> cases heq
    rcases s.container.lacks_or_mem tag with hlacks | ⟨shown, hshown, rfl⟩
    · rw [h.step_switchToWebView_of_lacks hlacks] at hgone ⊢
      exact h.makesRoom_newWebView hlacks hmem hgone
    · exact (hgone (h.mem_switchToWebView hshown hmem)).elim
  closed _ heq := nomatch heq
  released heq := nomatch heq

theorem orderly_releaseBackgroundWebViews (h : s.Steady) :
    s.Orderly .releaseBackgroundWebViews where
  tidy := h.tidy.releaseBackgroundWebViews
  visible webView hcurrent _ := by
    apply List.mem_of_getLast?
    exact h.releaseBackgroundWebViews.tidy.current webView hcurrent
  evicted := by
    rintro _ (heq | heq) <;> cases heq
  closed _ heq := nomatch heq
  released _ _ hmem hgone _ hkept := h.recent.newer_of_drop hmem hgone hkept

/-- The web view that is made only to be closed costs another one its place. -/
theorem closed_iff (h : s.Steady) (tag : Nat) :
    (∀ webView ∈ s.container.cachedWebViews, webView.tag ≠ tag →
      webView ∈ (s.step (.closeWebView tag)).container.cachedWebViews) ↔
      s.HasRoom (.closeWebView tag) := by
  simp only [step, HasRoom]
  constructor
  · intro hclosed hlacks
    by_contra hfull
    obtain ⟨oldest, hcached, hnotMem⟩ := h.tidy.cachedWebViews_eq hfull
    have hmem : oldest ∈ s.container.cachedWebViews := hcached ▸ List.mem_cons_self
    have hstays := hclosed oldest hmem (hlacks oldest hmem)
    rw [h.tidy.closeWebView_of_lacks hlacks] at hstays
    exact hnotMem hstays
  · intro hroom webView hmem hne
    rcases s.container.lacks_or_mem tag with hlacks | ⟨closed, hclosed, rfl⟩
    · rw [h.tidy.closeWebView_of_lacks hlacks, withRoom_of_lt (hroom hlacks)]
      exact hmem
    · rw [h.tidy.closeWebView_of_mem hclosed]
      refine List.mem_filter.mpr ⟨hmem, ?_⟩
      simp only [ne_eq, decide_not, Bool.not_eq_eq_eq_not, Bool.not_true, decide_eq_false_iff_not]
      rintro rfl
      exact hne rfl

theorem orderly_closeWebView (h : s.Steady) (hroom : s.HasRoom (.closeWebView tag)) :
    s.Orderly (.closeWebView tag) where
  tidy := h.tidy.closeWebView tag
  visible webView hcurrent hne := by
    apply (h.closed_iff tag).mpr hroom
    · exact List.mem_of_getLast? (h.tidy.current webView hcurrent)
    · rintro rfl
      exact hne rfl
  evicted := by
    rintro _ (heq | heq) <;> cases heq
  closed := by
    rintro _ heq
    cases heq
    exact (h.closed_iff tag).mpr hroom
  released heq := nomatch heq

end Steady

theorem orderly_iff (s : Screen) (a : Viewing) (h : s.Steady) (hfresh : s.Fresh a) :
    s.Orderly a ↔ s.HasRoom a := by
  cases a with
  | newWebView tag => exact ⟨fun _ => trivial, fun _ => h.orderly_newWebView hfresh⟩
  | switchToWebView tag => exact ⟨fun _ => trivial, fun _ => h.orderly_switchToWebView tag⟩
  | closeWebView tag =>
    exact ⟨fun horderly => (h.closed_iff tag).mp (horderly.closed tag rfl), h.orderly_closeWebView⟩
  | releaseBackgroundWebViews =>
    exact ⟨fun _ => trivial, fun _ => h.orderly_releaseBackgroundWebViews⟩

/-- Every step of the run is orderly just when every web view that is closed is in the cache, or
there is room for it. -/
theorem orderly_along_iff {as : List Viewing} (hfresh : Along step Fresh start as) :
    Along step Orderly start as ↔ Along step HasRoom start as :=
  along_congr steady_step orderly_iff steady_start hfresh

/-- Tabs are opened until one web view is gone, and one more is when its tab is shown again. Then
tabs are closed, the last of them one whose web view was released. -/
theorem orderly_along_tour : Along step Orderly start
    ((List.range 11).map .newWebView ++ [.switchToWebView 4, .switchToWebView 0, .closeWebView 4,
      .closeWebView 0, .releaseBackgroundWebViews, .closeWebView 7]) :=
  (orderly_along_iff (by decide +kernel)).mpr (by decide +kernel)

/-- Of eleven tabs the first one has lost its web view. Closing it costs the second one its own. -/
theorem not_orderly_along :
    ¬ ∀ as : List Viewing, Along step Fresh start as → Along step Orderly start as := by
  intro hall
  have hrun := hall ((List.range 11).map .newWebView ++ [.closeWebView 0]) (by decide +kernel)
  have hclose := ((along_append _ _ _).mp hrun).2.1
  have hstays := hclose.closed 0 rfl ⟨1, 1⟩ (by decide +kernel) (by decide)
  exact absurd hstays (by decide +kernel)

end Screen

end Shadowsocks
