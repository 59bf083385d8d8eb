import Shadowsocks.Browser.Cache
import Shadowsocks.Browser.Session

/-!
Whichever tabs are opened and closed, the cache of the browser stays tidy, and the web view of the
current tab is its last one.
-/
namespace Shadowsocks

namespace WebViewContainer

variable {c : WebViewContainer} {tag n n' : Nat}

/-- The tags in the cache have been given before `n`. -/
structure Below (c : WebViewContainer) (n : Nat) : Prop where
  tidy : c.Tidy
  lt : ∀ webView ∈ c.cachedWebViews, webView.tag < n

namespace Below

theorem lacks (h : c.Below n) : c.Lacks n := fun webView hmem => Nat.ne_of_lt (h.lt webView hmem)

theorem mono (h : c.Below n) (hle : n ≤ n') : c.Below n' :=
  ⟨h.tidy, fun webView hmem => Nat.lt_of_lt_of_le (h.lt webView hmem) hle⟩

theorem newWebView (h : c.Below n) (hlacks : c.Lacks tag) (htag : tag < n) :
    (c.newWebView tag).Below n := by
  refine ⟨h.tidy.newWebView hlacks, ?_⟩
  rw [h.tidy.newWebView_eq hlacks]
  intro webView hmem
  rcases List.mem_append.mp hmem with hmem | hmem
  · exact h.lt webView (c.withRoom_sublist.subset hmem)
  · rw [List.mem_singleton.mp hmem]
    exact htag

theorem switchToWebView (h : c.Below n) (htag : tag < n) : (c.switchToWebView tag).Below n := by
  rcases c.lacks_or_mem tag with hlacks | ⟨shown, hshown, rfl⟩
  · rw [h.tidy.switchToWebView_of_lacks hlacks]
    exact h.newWebView hlacks htag
  · refine ⟨h.tidy.switchToWebView shown.tag, ?_⟩
    rw [h.tidy.switchToWebView_of_mem hshown]
    intro webView hmem
    rcases List.mem_append.mp hmem with hmem | hmem
    · exact h.lt webView (List.mem_of_mem_filter hmem)
    · rw [List.mem_singleton.mp hmem]
      exact htag

theorem closeWebView (h : c.Below n) (tag : Nat) : (c.closeWebView tag).Below n := by
  refine ⟨h.tidy.closeWebView tag, ?_⟩
  intro webView hmem
  apply h.lt webView
  rcases c.lacks_or_mem tag with hlacks | ⟨closed, hclosed, rfl⟩
  · rw [h.tidy.closeWebView_of_lacks hlacks] at hmem
    exact c.withRoom_sublist.subset hmem
  · rw [h.tidy.closeWebView_of_mem hclosed] at hmem
    exact List.mem_of_mem_filter hmem

theorem releaseBackgroundWebViews (h : c.Below n) : c.releaseBackgroundWebViews.Below n :=
  ⟨h.tidy.releaseBackgroundWebViews, fun webView hmem => h.lt webView (List.mem_of_mem_drop hmem)⟩

end Below

end WebViewContainer

namespace ViewController

variable {v : ViewController} {tag : Nat} {url : Text}

/-- Every tag in use has been given by the tab bar. -/
structure Numbered (v : ViewController) : Prop where
  webViews : v.webViewContainer.Below v.tabBar.currentMaxTag
  tabs : ∀ tab ∈ v.tabBar.tabs, tab.tag < v.tabBar.currentMaxTag
  current : ∀ tab, v.tabBar.currentTab = some tab → tab.tag < v.tabBar.currentMaxTag

theorem numbered_switchToWebView (h : v.Numbered) (htag : tag < v.tabBar.currentMaxTag) :
    (v.switchToWebView tag).Numbered := by
  have hbar := v.switchToWebView_tabBar tag
  refine ⟨?_, ?_, ?_⟩
  · rw [hbar, switchToWebView_webViewContainer]
    exact h.webViews.switchToWebView htag
  · rw [hbar]
    exact h.tabs
  · rw [hbar]
    exact h.current

theorem numbered_setCurrentTab (h : v.Numbered) {newCurrentTab : Option Tab}
    (hnew : ∀ tab, newCurrentTab = some tab → tab.tag < v.tabBar.currentMaxTag) :
    (v.setCurrentTab newCurrentTab).Numbered := by
  simp only [setCurrentTab]
  split
  · exact h
  · have hset : ({ v with tabBar := { v.tabBar with currentTab := newCurrentTab } } :
        ViewController).Numbered := ⟨h.webViews, h.tabs, hnew⟩
    cases newCurrentTab with
    | none => exact hset
    | some tab => exact numbered_switchToWebView hset (hnew tab rfl)

theorem numbered_showTag (h : v.Numbered) (tag : Nat) :
    (v.setCurrentTab (v.tabBar.tabByTag tag)).Numbered :=
  numbered_setCurrentTab h fun tab hfind => h.tabs tab (List.mem_of_find?_eq_some hfind)

/-- The new tab has the tag that is given next. -/
theorem numbered_openTab (h : v.Numbered) :
    ((({ v with tabBar := v.tabBar.newTab.1 }).newWebView v.tabBar.currentMaxTag).setCurrentTab
      (some ⟨v.tabBar.currentMaxTag⟩)).Numbered := by
  have hlt : v.tabBar.currentMaxTag < v.tabBar.currentMaxTag + 1 := Nat.lt_succ_self _
  apply numbered_setCurrentTab
  · refine ⟨?_, ?_, ?_⟩
    · exact (h.webViews.mono hlt.le).newWebView h.webViews.lacks hlt
    · intro tab hmem
      rcases List.mem_append.mp hmem with hmem | hmem
      · exact Nat.lt_succ_of_lt (h.tabs tab hmem)
      · rw [List.mem_singleton.mp hmem]
        exact hlt
    · exact fun tab hcurrent => Nat.lt_succ_of_lt (h.current tab hcurrent)
  · intro tab heq
    cases heq
    exact hlt

theorem numbered_addNewTab (h : v.Numbered) : v.addNewTab.Numbered := numbered_openTab h

theorem numbered_openLinkInNewTab (h : v.Numbered) : (v.openLinkInNewTab url).Numbered := by
  have hpage := numbered_openTab (v := { v with
    pageManager := ((v.pageManager.addPageWithTag v.tabBar.currentMaxTag).1.modify
      v.pageManager.next fun page => { page with url := some url, title := some [] }) })
  exact hpage ⟨h.webViews, h.tabs, h.current⟩

theorem numbered_leaveTab (h : v.Numbered) (tab : Tab) : (v.leaveTab tab).Numbered := by
  have hneighbour : ∀ i, (v.setCurrentTab v.tabBar.tabs[i]?).Numbered := fun i =>
    numbered_setCurrentTab h fun other hget => h.tabs other (List.mem_of_getElem? hget)
  simp only [leaveTab]
  split_ifs
  · exact hneighbour _
  · exact h
  · exact hneighbour _
  · exact numbered_setCurrentTab h (by simp)
  · exact h

theorem numbered_showCurrent (h : v.Numbered) :
    (v.tabBar.currentTab.elim v fun tab => v.switchToWebView tab.tag).Numbered := by
  cases hcurrent : v.tabBar.currentTab with
  | none => exact h
  | some tab => exact numbered_switchToWebView h (h.current tab hcurrent)

theorem numbered_tabBarViewTabDidClose (h : v.Numbered) (tab : Tab) :
    (v.tabBarViewTabDidClose tab).Numbered := by
  have hshown := numbered_showCurrent (v := { v with
    pageManager := v.pageManager.removePage tab.tag
    webViewContainer := v.webViewContainer.closeWebView tab.tag })
    ⟨h.webViews.closeWebView tab.tag, h.tabs, h.current⟩
  simp only [tabBarViewTabDidClose]
  split
  · exact numbered_openLinkInNewTab hshown
  · exact hshown

theorem numbered_closeTab (h : v.Numbered) (tab : Tab) : (v.closeTab tab).Numbered := by
  have hleft := numbered_leaveTab h tab
  simp only [closeTab]
  apply numbered_tabBarViewTabDidClose
  exact ⟨hleft.webViews, fun other hmem => hleft.tabs other (List.mem_of_mem_filter hmem),
    hleft.current⟩

theorem numbered_drag (h : v.Numbered) (tabView : TabView) (position : Int) :
    ({ v with tabBar := v.tabBar.drag tabView position } : ViewController).Numbered := by
  simp only [TabBar.drag]
  cases htab : v.tabBar.tabByTag tabView.tag with
  | none => exact h
  | some tab =>
    dsimp only
    split
    · refine ⟨h.webViews, ?_, h.current⟩
      intro other hmem
      rcases List.eq_or_mem_of_mem_insertIdx hmem with rfl | hmem
      · exact h.tabs other (List.mem_of_find?_eq_some htab)
      · exact h.tabs other (List.mem_of_mem_filter hmem)
    · exact h

theorem numbered_step (h : v.Numbered) (e : Browsing) : (v.step e).Numbered := by
  cases e with
  | openLink url => exact numbered_openLinkInNewTab h
  | select tag =>
    simp only [step]
    cases v.tabBar.tabViewByTag tag with
    | none => exact h
    | some tabView => exact numbered_showTag h tabView.tag
  | close tag =>
    simp only [step]
    cases v.tabBar.tabViewByTag tag with
    | none => exact h
    | some tabView =>
      rw [Option.elim_some]
      cases v.tabBar.tabByTag tabView.tag with
      | none => exact h
      | some tab => exact numbered_closeTab h tab
  | drag tag position =>
    simp only [step]
    cases v.tabBar.tabViewByTag tag with
    | none => exact h
    | some tabView => exact numbered_drag h tabView position
  | didReceiveMemoryWarning =>
    exact ⟨h.webViews.releaseBackgroundWebViews, h.tabs, h.current⟩
  | didFinishLoad tag title url =>
    simp only [step]
    cases v.pageManager.pageByTag tag with
    | none => exact h
    | some page => exact ⟨h.webViews, h.tabs, h.current⟩

theorem numbered_foldl (h : v.Numbered) (n : Nat) :
    ((List.range n).foldl (fun v _ => v.addNewTab) v).Numbered := by
  induction n with
  | zero => exact h
  | succ n ih =>
    rw [List.range_succ, List.foldl_append]
    exact numbered_addNewTab ih

theorem numbered_new (m : PageManager) (tag : Nat) :
    (⟨⟨[], [], none, 0⟩, m, ⟨[], none, 0⟩, tag⟩ : ViewController).Numbered :=
  ⟨⟨Screen.steady_start.tidy, by simp⟩, by simp, by simp⟩

theorem numbered_viewDidLoad (pages : List Page) : (viewDidLoad pages).Numbered := by
  simp only [viewDidLoad, initPagesAndTabs]
  split
  · exact numbered_openLinkInNewTab (numbered_foldl (numbered_new _ _) _)
  · exact numbered_showTag (numbered_foldl (numbered_new _ _) _) _

theorem numbered_after (pages : List Page) (es : List Browsing) : (after pages es).Numbered :=
  Run.always (I := Numbered) (fun _ e h => numbered_step h e) (numbered_viewDidLoad pages) es

/-- The web view of the current tab is never the one that has to go. -/
theorem visible_after (pages : List Page) (es : List Browsing) :
    (after pages es).webViewContainer.Tidy ∧
      ∃ tab webView, (after pages es).tabBar.currentTab = some tab ∧
        (after pages es).webViewContainer.cachedWebViews.getLast? = some webView ∧
        webView.tag = tab.tag := by
  have htidy := (numbered_after pages es).webViews.tidy
  obtain ⟨tab, -, hcurrent, ⟨webView, hview, htag⟩, -⟩ :=
    (invariant_run (invariant_viewDidLoad pages) es).current
  exact ⟨htidy, tab, webView, hcurrent, htidy.current webView hview, htag⟩

end ViewController

end Shadowsocks
