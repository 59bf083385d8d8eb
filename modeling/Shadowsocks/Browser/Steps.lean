import Mathlib.Data.List.InsertIdx
import Shadowsocks.Browser.Tabs
import Shadowsocks.Library.Run

/-!
The tab bar, its views, the pages and the web views stay in step, although each is changed by
another class, and some from within a change of another.
-/
namespace Shadowsocks

variable {b : TabBar} {m m' : PageManager} {c : WebViewContainer} {v : ViewController} {tag : Nat}

theorem List.map_filter_ne {α β : Type} [DecidableEq α] [DecidableEq β] {f : α → β} {l : List α}
    {x : α} (hnodup : (l.map f).Nodup) (hx : x ∈ l) :
    (l.filter (· ≠ x)).map f = (l.map f).filter (· ≠ f x) := by
  rw [List.filter_map]
  apply congrArg (List.map f)
  apply List.filter_congr
  intro y hy
  have hiff : y = x ↔ f y = f x :=
    ⟨congrArg f, fun heq => List.inj_on_of_nodup_map hnodup hy hx heq⟩
  simp only [Function.comp_apply, hiff, ne_eq]

/-! The pages. -/

namespace PageManager

/-- Every page has one tag. -/
structure Mapped (m : PageManager) : Prop where
  nodup : m.pages.Nodup
  lt_next : ∀ page ∈ m.pages, page < m.next
  mem_iff : ∀ page, page ∈ m.pages ↔ ∃ tag, m.pageByTag tag = some page
  inj : ∀ tag tag' page, m.pageByTag tag = some page → m.pageByTag tag' = some page → tag = tag'

/-- The page with this tag is the one that is selected. -/
def Selected (m : PageManager) (tag : Nat) : Prop :=
  ∃ page, m.pageByTag tag = some page ∧
    ∀ other ∈ m.pages, (m.object other).selected = some (decide (other = page))

/-- The same pages, with the same titles and addresses. -/
structure Same (m m' : PageManager) : Prop where
  pages : m'.pages = m.pages
  next : m'.next = m.next
  mapping : m'.tagToPageMapping = m.tagToPageMapping
  title : ∀ page, (m'.object page).title = (m.object page).title
  url : ∀ page, (m'.object page).url = (m.object page).url

theorem Same.refl (m : PageManager) : m.Same m := ⟨rfl, rfl, rfl, fun _ => rfl, fun _ => rfl⟩

theorem Same.trans {m'' : PageManager} (h : m.Same m') (h' : m'.Same m'') : m.Same m'' where
  pages := h'.pages.trans h.pages
  next := h'.next.trans h.next
  mapping := h'.mapping.trans h.mapping
  title page := (h'.title page).trans (h.title page)
  url page := (h'.url page).trans (h.url page)

theorem Same.pageByTag (h : m.Same m') (tag : Nat) : m'.pageByTag tag = m.pageByTag tag :=
  congrFun h.mapping tag

theorem Same.mapped (h : m.Same m') (hm : m.Mapped) : m'.Mapped where
  nodup := h.pages ▸ hm.nodup
  lt_next := by
    rw [h.pages, h.next]
    exact hm.lt_next
  mem_iff page := by
    simp only [h.pages, h.pageByTag]
    exact hm.mem_iff page
  inj := by
    simp only [h.pageByTag]
    exact hm.inj

theorem modify_object (m : PageManager) (page : Nat) (f : Page → Page) (other : Nat) :
    (m.modify page f).object other = if other = page then f (m.object page) else m.object other :=
  Function.update_apply ..

theorem same_modify (m : PageManager) (page : Nat) {f : Page → Page}
    (htitle : ∀ p, (f p).title = p.title) (hurl : ∀ p, (f p).url = p.url) :
    m.Same (m.modify page f) := by
  refine ⟨rfl, rfl, rfl, ?_, ?_⟩ <;> intro other <;> rw [modify_object] <;> split
  · rename_i heq
    rw [heq]
    exact htitle _
  · rfl
  · rename_i heq
    rw [heq]
    exact hurl _
  · rfl

theorem same_deselect (m : PageManager) : m.Same m.deselect := by
  refine ⟨rfl, rfl, rfl, ?_, ?_⟩ <;> intro page <;> simp only [deselect] <;> split <;> rfl

theorem same_select (m : PageManager) (tag : Nat) : m.Same (m.select tag) := by
  simp only [select]
  cases m.pageByTag tag with
  | none => exact same_deselect m
  | some page =>
    rw [Option.elim_some]
    apply (same_deselect m).trans
    apply same_modify <;> intro page <;> rfl

/-- Selecting a page takes the selection from all others. -/
theorem selected_select (h : (m.pageByTag tag).isSome) : (m.select tag).Selected tag := by
  obtain ⟨page, hpage⟩ := Option.isSome_iff_exists.mp h
  have hsame := same_select m tag
  refine ⟨page, (hsame.pageByTag tag).trans hpage, ?_⟩
  intro other hother
  rw [hsame.pages] at hother
  rw [select, hpage, Option.elim_some, modify_object]
  by_cases heq : other = page
  · rw [if_pos heq]
    simp only [heq, decide_true]
  · rw [if_neg heq]
    simp only [deselect, if_pos hother, heq, decide_false]

theorem Same.selected (h : m.Same m') (hsel : ∀ page ∈ m.pages,
    (m'.object page).selected = (m.object page).selected) (hm : m.Selected tag) :
    m'.Selected tag := by
  obtain ⟨page, hpage, hall⟩ := hm
  refine ⟨page, (h.pageByTag tag).trans hpage, ?_⟩
  intro other hother
  rw [h.pages] at hother
  rw [hsel other hother]
  exact hall other hother

end PageManager

/-! The web views. -/

namespace WebViewContainer

theorem getANewWebView_spec (c : WebViewContainer) (tag : Nat) :
    (c.getANewWebView tag).2.tag = tag ∧
      (c.getANewWebView tag).1.currentWebView = c.currentWebView := by
  refine ⟨rfl, ?_⟩
  simp only [getANewWebView]
  split
  · cases c.cachedWebViews.head? <;> rfl
  · rfl

/-- Whether or not it is in the cache, the web view has the tag asked for. -/
theorem webViewByTag_spec (c : WebViewContainer) (tag : Nat) :
    (c.webViewByTag tag).2.tag = tag ∧
      (c.webViewByTag tag).1.currentWebView = c.currentWebView := by
  simp only [webViewByTag]
  split
  · rename_i webView hfind
    exact ⟨by simpa using List.find?_some hfind, rfl⟩
  · exact getANewWebView_spec c tag

/-- Closing another web view leaves the current one. -/
theorem closeWebView_of_ne {webView : WebView} (h : c.currentWebView = some webView)
    (hne : tag ≠ webView.tag) : (c.closeWebView tag).currentWebView = some webView := by
  simp only [closeWebView, h, Option.elim_some, if_neg hne, removeAWebView]
  exact (webViewByTag_spec c tag).2.trans h

end WebViewContainer

namespace ViewController

/-- The web view and the page with this tag are what the user sees. -/
def Shows (v : ViewController) (tag : Nat) : Prop :=
  (∃ webView, v.webViewContainer.currentWebView = some webView ∧ webView.tag = tag) ∧
    v.pageManager.Selected tag

theorem newWebView_spec (h : (v.pageManager.pageByTag tag).isSome) :
    (v.newWebView tag).tabBar = v.tabBar ∧ v.pageManager.Same (v.newWebView tag).pageManager ∧
      (v.newWebView tag).Shows tag := by
  have htag := (v.webViewContainer.getANewWebView_spec tag).1
  refine ⟨rfl, ?_, ⟨_, rfl, htag⟩, ?_⟩
  · simp only [newWebView]
    exact PageManager.same_select _ _
  · simp only [newWebView, htag]
    exact PageManager.selected_select h

/-- The page is selected anew only when the web view changes. -/
theorem switchToWebView_spec (tag : Nat) (h : (v.pageManager.pageByTag tag).isSome)
    (hview : ∀ webView, v.webViewContainer.currentWebView = some webView → v.Shows webView.tag) :
    (v.switchToWebView tag).tabBar = v.tabBar ∧
      v.pageManager.Same (v.switchToWebView tag).pageManager ∧
      (v.switchToWebView tag).Shows tag := by
  obtain ⟨htag, hcurrent⟩ := v.webViewContainer.webViewByTag_spec tag
  simp only [switchToWebView]
  split
  · rename_i hsame
    rw [hcurrent] at hsame
    refine ⟨rfl, .refl _, ⟨_, hcurrent.trans hsame, htag⟩, ?_⟩
    have hshows := (hview _ hsame).2
    rw [htag] at hshows
    exact hshows
  · refine ⟨rfl, PageManager.same_select _ _, ⟨_, rfl, htag⟩, ?_⟩
    simp only [htag]
    exact PageManager.selected_select h

theorem setCurrentTab_spec (tab : Tab) (h : (v.pageManager.pageByTag tab.tag).isSome)
    (hview : ∀ webView, v.webViewContainer.currentWebView = some webView → v.Shows webView.tag)
    (hcurrent : v.tabBar.currentTab = some tab → v.Shows tab.tag) :
    (v.setCurrentTab (some tab)).tabBar = { v.tabBar with currentTab := some tab } ∧
      v.pageManager.Same (v.setCurrentTab (some tab)).pageManager ∧
      (v.setCurrentTab (some tab)).Shows tab.tag := by
  simp only [setCurrentTab]
  split
  · rename_i hsame
    refine ⟨?_, .refl _, hcurrent hsame.symm⟩
    rw [hsame]
  · exact switchToWebView_spec (v := { v with tabBar := { v.tabBar with currentTab := some tab } })
      _ h hview

end ViewController

/-! The tab bar. -/

namespace TabBar

/-- No two tabs have the same tag, and every tab has its view. -/
structure Ordered (b : TabBar) : Prop where
  nodup : (b.tabs.map Tab.tag).Nodup
  tabViews : b.tabViews.map TabView.tag = b.tabs.map Tab.tag
  lt_max : ∀ tag ∈ b.tabs.map Tab.tag, tag < b.currentMaxTag

theorem ordered_newTab (h : b.Ordered) : b.newTab.1.Ordered where
  nodup := by
    simp only [newTab, List.map_append, List.map_cons, List.map_nil]
    apply h.nodup.append (List.nodup_singleton _)
    rw [List.disjoint_singleton]
    exact fun hmem => Nat.lt_irrefl _ (h.lt_max _ hmem)
  tabViews := by
    simp only [newTab, List.map_append, List.map_cons, List.map_nil, h.tabViews]
  lt_max := by
    simp only [newTab, List.map_append, List.map_cons, List.map_nil]
    intro tag hmem
    rcases List.mem_append.mp hmem with hmem | hmem
    · exact Nat.lt_succ_of_lt (h.lt_max tag hmem)
    · rw [List.mem_singleton.mp hmem]
      exact Nat.lt_succ_self _

end TabBar

namespace ViewController

/-- What holds after every operation. -/
structure Invariant (v : ViewController) : Prop where
  ordered : v.tabBar.Ordered
  mapped : v.pageManager.Mapped
  keys : ∀ tag, (v.pageManager.pageByTag tag).isSome ↔ tag ∈ v.tabBar.tabs.map Tab.tag
  current : ∃ tab ∈ v.tabBar.tabs, v.tabBar.currentTab = some tab ∧ v.Shows tab.tag

/-- A new tab, for which there is a page already, becomes current. -/
theorem openTab_spec (h : (v.pageManager.pageByTag v.tabBar.currentMaxTag).isSome) :
    let v' := (({ v with tabBar := v.tabBar.newTab.1 }).newWebView
      v.tabBar.currentMaxTag).setCurrentTab (some ⟨v.tabBar.currentMaxTag⟩)
    v'.tabBar = { v.tabBar.newTab.1 with currentTab := some ⟨v.tabBar.currentMaxTag⟩ } ∧
      v.pageManager.Same v'.pageManager ∧ v'.Shows v.tabBar.currentMaxTag := by
  obtain ⟨hbar, hsame, hshows⟩ := newWebView_spec (v := { v with tabBar := v.tabBar.newTab.1 }) h
  have hview : ∀ webView, (({ v with tabBar := v.tabBar.newTab.1 }).newWebView
      v.tabBar.currentMaxTag).webViewContainer.currentWebView = some webView →
      (({ v with tabBar := v.tabBar.newTab.1 }).newWebView v.tabBar.currentMaxTag).Shows
        webView.tag := by
    intro webView hwebView
    obtain ⟨webView', hwebView', htag⟩ := hshows.1
    cases hwebView.symm.trans hwebView'
    rw [htag]
    exact hshows
  obtain ⟨hbar', hsame', hshows'⟩ := setCurrentTab_spec ⟨v.tabBar.currentMaxTag⟩
    ((hsame.pageByTag _).symm ▸ h) hview fun _ => hshows
  rw [hbar] at hbar'
  exact ⟨hbar', hsame.trans hsame', hshows'⟩

theorem addNewTab_spec (h : (v.pageManager.pageByTag v.tabBar.currentMaxTag).isSome) :
    v.addNewTab.tabBar =
        { v.tabBar.newTab.1 with currentTab := some ⟨v.tabBar.currentMaxTag⟩ } ∧
      v.pageManager.Same v.addNewTab.pageManager ∧ v.addNewTab.Shows v.tabBar.currentMaxTag :=
  openTab_spec h

end ViewController

theorem PageManager.Mapped.mapped_addPage (h : m.Mapped) (hnew : m.pageByTag tag = none) :
    (m.addPageWithTag tag).1.Mapped := by
  have hfresh : m.next ∉ m.pages := fun hmem => Nat.lt_irrefl _ (h.lt_next _ hmem)
  have hpage : ∀ tag', (m.addPageWithTag tag).1.pageByTag tag' =
      if tag' = tag then some m.next else m.pageByTag tag' := fun _ => Function.update_apply ..
  refine ⟨?_, ?_, ?_, ?_⟩
  · apply h.nodup.append (List.nodup_singleton _)
    rw [List.disjoint_singleton]
    exact hfresh
  · intro page hmem
    rcases List.mem_append.mp hmem with hmem | hmem
    · exact Nat.lt_succ_of_lt (h.lt_next page hmem)
    · rw [List.mem_singleton.mp hmem]
      exact Nat.lt_succ_self _
  · intro page
    simp only [hpage]
    constructor
    · intro hmem
      rcases List.mem_append.mp hmem with hmem | hmem
      · obtain ⟨tag', htag'⟩ := (h.mem_iff page).mp hmem
        refine ⟨tag', ?_⟩
        rw [if_neg, htag']
        rintro rfl
        rw [hnew] at htag'
        cases htag'
      · refine ⟨tag, ?_⟩
        rw [if_pos rfl, List.mem_singleton.mp hmem]
    · rintro ⟨tag', htag'⟩
      split at htag'
      · cases htag'
        exact List.mem_append_right _ (List.mem_singleton_self _)
      · exact List.mem_append_left _ ((h.mem_iff page).mpr ⟨tag', htag'⟩)
  · intro tag₁ tag₂ page h₁ h₂
    have hold : ∀ tag', m.pageByTag tag' = some m.next → False := by
      intro tag' htag'
      exact hfresh ((h.mem_iff _).mpr ⟨tag', htag'⟩)
    rw [hpage] at h₁ h₂
    split at h₁ <;> split at h₂
    · rename_i heq₁ heq₂
      rw [heq₁, heq₂]
    · cases h₁
      exact (hold _ h₂).elim
    · cases h₂
      exact (hold _ h₁).elim
    · exact h.inj _ _ _ h₁ h₂

namespace ViewController

variable {url : Text}

theorem openLinkInNewTab_spec (url : Text) (hordered : v.tabBar.Ordered)
    (hkeys : ∀ tag, (v.pageManager.pageByTag tag).isSome ↔ tag ∈ v.tabBar.tabs.map Tab.tag) :
    v.pageManager.pageByTag v.tabBar.currentMaxTag = none ∧
      (v.openLinkInNewTab url).tabBar =
        { v.tabBar.newTab.1 with currentTab := some ⟨v.tabBar.currentMaxTag⟩ } ∧
      (((v.pageManager.addPageWithTag v.tabBar.currentMaxTag).1.modify v.pageManager.next
        fun page => { page with url := some url, title := some [] })).Same
          (v.openLinkInNewTab url).pageManager ∧
      (v.openLinkInNewTab url).Shows v.tabBar.currentMaxTag := by
  refine ⟨?_, ?_⟩
  · cases hpage : v.pageManager.pageByTag v.tabBar.currentMaxTag with
    | none => rfl
    | some page =>
      have hmem := (hkeys _).mp (Option.isSome_of_eq_some hpage)
      exact absurd (hordered.lt_max _ hmem) (Nat.lt_irrefl _)
  · have hopen := openTab_spec (v := { v with
      pageManager := ((v.pageManager.addPageWithTag v.tabBar.currentMaxTag).1.modify
        v.pageManager.next fun page => { page with url := some url, title := some [] }) })
    apply hopen
    have hpage : (v.pageManager.addPageWithTag v.tabBar.currentMaxTag).1.pageByTag
        v.tabBar.currentMaxTag = some v.pageManager.next := Function.update_self ..
    exact Option.isSome_of_eq_some hpage

/-- A tab can be opened when no tab is left, too. -/
theorem invariant_openLinkInNewTab (hordered : v.tabBar.Ordered) (hmapped : v.pageManager.Mapped)
    (hkeys : ∀ tag, (v.pageManager.pageByTag tag).isSome ↔ tag ∈ v.tabBar.tabs.map Tab.tag) :
    (v.openLinkInNewTab url).Invariant := by
  obtain ⟨hnew, hbar, hsame, hshows⟩ := openLinkInNewTab_spec url hordered hkeys
  have hadded := hmapped.mapped_addPage hnew
  refine ⟨?_, ?_, ?_, ?_⟩
  · rw [hbar]
    have h := TabBar.ordered_newTab hordered
    exact ⟨h.nodup, h.tabViews, h.lt_max⟩
  · apply hsame.mapped
    exact ⟨hadded.nodup, hadded.lt_next, hadded.mem_iff, hadded.inj⟩
  · intro tag
    have hpage : (v.openLinkInNewTab url).pageManager.pageByTag tag =
        if tag = v.tabBar.currentMaxTag then some v.pageManager.next
        else v.pageManager.pageByTag tag :=
      (hsame.pageByTag tag).trans (Function.update_apply ..)
    have htabs : (v.openLinkInNewTab url).tabBar.tabs.map Tab.tag =
        v.tabBar.tabs.map Tab.tag ++ [v.tabBar.currentMaxTag] := by
      rw [hbar]
      simp only [TabBar.newTab, List.map_append, List.map_cons, List.map_nil]
    rw [hpage, htabs, List.mem_append, List.mem_singleton]
    split
    · rename_i heq
      exact ⟨fun _ => Or.inr heq, fun _ => rfl⟩
    · rename_i hne
      rw [hkeys]
      exact ⟨Or.inl, fun h => h.resolve_right hne⟩
  · refine ⟨⟨v.tabBar.currentMaxTag⟩, ?_, ?_, hshows⟩
    · rw [hbar]
      exact List.mem_append_right _ (List.mem_singleton_self _)
    · rw [hbar]

/-- The pages and the tabs know the same tags. -/
theorem Invariant.known (h : v.Invariant) {tab : Tab} (hmem : tab ∈ v.tabBar.tabs) :
    (v.pageManager.pageByTag tab.tag).isSome :=
  (h.keys tab.tag).mpr (List.mem_map_of_mem hmem)

theorem Invariant.shows_view (h : v.Invariant) {webView : WebView}
    (hview : v.webViewContainer.currentWebView = some webView) : v.Shows webView.tag := by
  obtain ⟨tab, -, -, hshows⟩ := h.current
  obtain ⟨webView', hview', htag⟩ := hshows.1
  cases hview.symm.trans hview'
  rw [htag]
  exact hshows

theorem Invariant.shows_current (h : v.Invariant) {tab : Tab}
    (hcurrent : v.tabBar.currentTab = some tab) : v.Shows tab.tag := by
  obtain ⟨tab', -, hcurrent', hshows⟩ := h.current
  cases hcurrent.symm.trans hcurrent'
  exact hshows

/-- Any tab can be made current. -/
theorem invariant_setCurrentTab (h : v.Invariant) {tab : Tab} (hmem : tab ∈ v.tabBar.tabs) :
    (v.setCurrentTab (some tab)).Invariant := by
  obtain ⟨hbar, hsame, hshows⟩ := setCurrentTab_spec _ (h.known hmem)
    (fun _ hview => h.shows_view hview) h.shows_current
  refine ⟨?_, hsame.mapped h.mapped, ?_, ?_⟩
  · rw [hbar]
    exact ⟨h.ordered.nodup, h.ordered.tabViews, h.ordered.lt_max⟩
  · intro tag
    rw [hsame.pageByTag, hbar]
    exact h.keys tag
  · refine ⟨tab, ?_, ?_, hshows⟩
    · rw [hbar]
      exact hmem
    · rw [hbar]

/-- Another tab is current, or there is none. -/
def Left (v : ViewController) (tab : Tab) : Prop :=
  (∃ other ∈ v.tabBar.tabs, other ≠ tab ∧ v.tabBar.currentTab = some other ∧ v.Shows other.tag) ∨
    v.tabBar.tabs = [tab] ∧ v.tabBar.currentTab = none

theorem left_of_getElem (h : v.Invariant) {tab : Tab} (hmem : tab ∈ v.tabBar.tabs) {j : Nat}
    (hj : j < v.tabBar.tabs.length) (hne : j ≠ v.tabBar.tabs.idxOf tab) :
    (v.setCurrentTab v.tabBar.tabs[j]?).tabBar =
        { v.tabBar with currentTab := (v.setCurrentTab v.tabBar.tabs[j]?).tabBar.currentTab } ∧
      v.pageManager.Same (v.setCurrentTab v.tabBar.tabs[j]?).pageManager ∧
      (v.setCurrentTab v.tabBar.tabs[j]?).Left tab := by
  rw [List.getElem?_eq_getElem hj]
  have hother : v.tabBar.tabs[j] ∈ v.tabBar.tabs := List.getElem_mem hj
  obtain ⟨hbar, hsame, hshows⟩ := setCurrentTab_spec _ (h.known hother)
    (fun _ hview => h.shows_view hview) h.shows_current
  refine ⟨by rw [hbar], hsame, Or.inl ⟨v.tabBar.tabs[j], ?_, ?_, ?_, hshows⟩⟩
  · rw [hbar]
    exact hother
  · intro heq
    have hindex := List.idxOf_lt_length_of_mem hmem
    have hget : v.tabBar.tabs[j] = v.tabBar.tabs[v.tabBar.tabs.idxOf tab] := by
      rw [heq, List.getElem_idxOf hindex]
    exact hne ((h.ordered.nodup.of_map Tab.tag).getElem_inj_iff.mp hget)
  · rw [hbar]

/-- Before a tab goes, another one is made current, unless it is the only one. -/
theorem leaveTab_spec (h : v.Invariant) {tab : Tab} (hmem : tab ∈ v.tabBar.tabs) :
    (v.leaveTab tab).tabBar =
        { v.tabBar with currentTab := (v.leaveTab tab).tabBar.currentTab } ∧
      v.pageManager.Same (v.leaveTab tab).pageManager ∧ (v.leaveTab tab).Left tab := by
  have hindex := List.idxOf_lt_length_of_mem hmem
  simp only [leaveTab]
  by_cases hcurrent : v.tabBar.currentTab = some tab
  · rw [if_pos hcurrent]
    by_cases hone : v.tabBar.tabs.length = 1
    · obtain ⟨only, honly⟩ := List.length_eq_one_iff.mp hone
      rw [honly, List.mem_singleton] at hmem
      rw [if_neg (not_not.mpr hone)]
      have hnone : v.setCurrentTab none =
          { v with tabBar := { v.tabBar with currentTab := none } } := by
        simp only [setCurrentTab, hcurrent]
        rfl
      rw [hnone]
      exact ⟨rfl, .refl _, Or.inr ⟨by rw [hmem]; exact honly, rfl⟩⟩
    · rw [if_pos hone]
      split
      · rename_i hlast
        have hpos : v.tabBar.tabs.idxOf tab ≠ 0 := by omega
        rw [if_pos hpos]
        exact left_of_getElem h hmem (by omega) (by omega)
      · exact left_of_getElem h hmem (by omega) (by omega)
  · rw [if_neg hcurrent]
    obtain ⟨other, hother, hcurrent', hshows⟩ := h.current
    refine ⟨rfl, .refl _, Or.inl ⟨other, hother, ?_, hcurrent', hshows⟩⟩
    rintro rfl
    exact hcurrent hcurrent'

end ViewController

namespace TabBar

theorem tabView_of_tag (h : b.Ordered) {tab : Tab} (hmem : tab ∈ b.tabs) :
    b.tabViewByTag tab.tag = some ⟨tab.tag⟩ := by
  have htag : tab.tag ∈ b.tabViews.map TabView.tag := by
    rw [h.tabViews]
    exact List.mem_map_of_mem hmem
  obtain ⟨tabView, hview, heq⟩ := List.mem_map.mp htag
  cases hfind : b.tabViewByTag tab.tag with
  | none =>
    have := List.find?_eq_none.mp hfind tabView hview
    simp [heq] at this
  | some found =>
    have hfound := List.find?_some hfind
    rw [decide_eq_true_eq] at hfound
    rw [← hfound]

theorem tab_of_tabView (h : b.Ordered) {tabView : TabView} (hmem : tabView ∈ b.tabViews) :
    ∃ tab, b.tabByTag tabView.tag = some tab ∧ tab ∈ b.tabs := by
  have htag : tabView.tag ∈ b.tabs.map Tab.tag := by
    rw [← h.tabViews]
    exact List.mem_map_of_mem hmem
  obtain ⟨tab, htab, heq⟩ := List.mem_map.mp htag
  cases hfind : b.tabByTag tabView.tag with
  | none =>
    have := List.find?_eq_none.mp hfind tab htab
    simp [heq] at this
  | some found => exact ⟨found, rfl, List.mem_of_find?_eq_some hfind⟩

/-- The tab and its view are taken out together. -/
theorem ordered_remove (h : b.Ordered) {tab : Tab} (hmem : tab ∈ b.tabs) :
    ({ b with
      tabs := b.tabs.filter (· ≠ tab)
      tabViews := b.tabViews.filter (some · ≠ b.tabViewByTag tab.tag) } : TabBar).Ordered := by
  have hviews : b.tabViews.filter (some · ≠ b.tabViewByTag tab.tag) =
      b.tabViews.filter (· ≠ ⟨tab.tag⟩) := by
    rw [tabView_of_tag h hmem]
    simp only [ne_eq, Option.some.injEq]
  have hview : (⟨tab.tag⟩ : TabView) ∈ b.tabViews :=
    List.mem_of_find?_eq_some (tabView_of_tag h hmem)
  have htabs := List.map_filter_ne h.nodup hmem
  have hnodup := h.nodup
  rw [← h.tabViews] at hnodup
  refine ⟨?_, ?_, ?_⟩
  · simp only [htabs]
    exact h.nodup.filter _
  · simp only [hviews]
    rw [List.map_filter_ne hnodup hview, htabs, h.tabViews]
  · simp only [htabs]
    exact fun tag htag => h.lt_max tag (List.mem_of_mem_filter htag)

end TabBar

namespace PageManager

variable {page : Nat}

theorem pageByTag_removePage (m : PageManager) (tag other : Nat) :
    (m.removePage tag).pageByTag other = if other = tag then none else m.pageByTag other :=
  Function.update_apply ..

theorem mem_removePage (hpage : m.pageByTag tag = some page) (other : Nat) :
    other ∈ (m.removePage tag).pages ↔ other ∈ m.pages ∧ other ≠ page := by
  simp only [removePage, hpage, List.mem_filter, ne_eq, Option.some.injEq, decide_eq_true_eq]

theorem Mapped.mapped_removePage (h : m.Mapped) (hpage : m.pageByTag tag = some page) :
    (m.removePage tag).Mapped where
  nodup := h.nodup.filter _
  lt_next other hmem := h.lt_next other ((mem_removePage hpage other).mp hmem).1
  mem_iff other := by
    rw [mem_removePage hpage]
    simp only [pageByTag_removePage]
    constructor
    · rintro ⟨hmem, hne⟩
      obtain ⟨tag', htag'⟩ := (h.mem_iff other).mp hmem
      refine ⟨tag', ?_⟩
      rw [if_neg, htag']
      rintro rfl
      exact hne (Option.some.inj (htag'.symm.trans hpage))
    · rintro ⟨tag', htag'⟩
      split at htag'
      · cases htag'
      · rename_i hne
        refine ⟨(h.mem_iff other).mpr ⟨tag', htag'⟩, ?_⟩
        rintro rfl
        exact hne (h.inj _ _ _ htag' hpage)
  inj tag₁ tag₂ other h₁ h₂ := by
    rw [pageByTag_removePage] at h₁ h₂
    split at h₁
    · cases h₁
    · split at h₂
      · cases h₂
      · exact h.inj _ _ _ h₁ h₂

/-- The page that is selected stays so when another one goes. -/
theorem Selected.removePage {other : Nat} (h : m.Selected other)
    (hpage : m.pageByTag tag = some page) (hne : other ≠ tag) :
    (m.removePage tag).Selected other := by
  obtain ⟨shown, hshown, hall⟩ := h
  refine ⟨shown, ?_, ?_⟩
  · rw [pageByTag_removePage, if_neg hne]
    exact hshown
  · intro q hq
    exact hall q ((mem_removePage hpage q).mp hq).1

end PageManager

namespace ViewController

/-- The page and the web view go with the tab; with the last tab gone another one is opened. -/
theorem invariant_tabBarViewTabDidClose {tab : Tab} (hordered : v.tabBar.Ordered)
    (hmapped : v.pageManager.Mapped)
    (hkeys : ∀ tag, (v.pageManager.pageByTag tag).isSome ↔
      tag ∈ v.tabBar.tabs.map Tab.tag ∨ tag = tab.tag)
    (hout : tab.tag ∉ v.tabBar.tabs.map Tab.tag)
    (hleft : (∃ other ∈ v.tabBar.tabs, v.tabBar.currentTab = some other ∧ v.Shows other.tag) ∨
      v.tabBar.tabs = [] ∧ v.tabBar.currentTab = none) :
    (v.tabBarViewTabDidClose tab).Invariant := by
  obtain ⟨page, hpage⟩ := Option.isSome_iff_exists.mp ((hkeys tab.tag).mpr (Or.inr rfl))
  have hmapped' := hmapped.mapped_removePage hpage
  have hkeys' : ∀ tag, ((v.pageManager.removePage tab.tag).pageByTag tag).isSome ↔
      tag ∈ v.tabBar.tabs.map Tab.tag := by
    intro tag
    rw [PageManager.pageByTag_removePage]
    split
    · rename_i heq
      rw [heq]
      exact ⟨nofun, fun hmem => absurd hmem hout⟩
    · rename_i hne
      rw [hkeys]
      exact ⟨fun h => h.resolve_right hne, Or.inl⟩
  rcases hleft with ⟨other, hother, hcurrent, ⟨webView, hwebView, htag⟩, hselected⟩ |
    ⟨htabs, hcurrent⟩
  · have hne : other.tag ≠ tab.tag := by
      intro heq
      rw [← heq] at hout
      exact hout (List.mem_map_of_mem hother)
    have hview : (v.webViewContainer.closeWebView tab.tag).currentWebView = some webView := by
      apply WebViewContainer.closeWebView_of_ne hwebView
      rw [htag]
      exact hne.symm
    have hselected' := hselected.removePage hpage hne
    have hswitch := switchToWebView_spec (v := { v with
      pageManager := v.pageManager.removePage tab.tag
      webViewContainer := v.webViewContainer.closeWebView tab.tag }) other.tag
      ((hkeys' _).mpr (List.mem_map_of_mem hother)) (by
        intro webView' hwebView'
        cases hview.symm.trans hwebView'
        exact ⟨⟨webView, hview, rfl⟩, htag ▸ hselected'⟩)
    obtain ⟨hbar, hsame, hshows⟩ := hswitch
    simp only [tabBarViewTabDidClose, hcurrent, Option.elim_some]
    rw [if_neg]
    · refine ⟨?_, hsame.mapped hmapped', ?_, ?_⟩
      · rw [hbar]
        exact hordered
      · intro tag
        rw [hsame.pageByTag, hbar]
        exact hkeys' tag
      · rw [hbar]
        exact ⟨other, hother, hcurrent, hshows⟩
    · obtain ⟨shown, hshown, -⟩ := hselected'
      have hmem := (hmapped'.mem_iff shown).mpr ⟨_, hshown⟩
      rw [hsame.pages]
      exact Nat.ne_of_gt (List.length_pos_of_mem hmem)
  · have hempty : (v.pageManager.removePage tab.tag).pages = [] := by
      apply List.eq_nil_iff_forall_not_mem.mpr
      intro shown hshown
      obtain ⟨tag, htag⟩ := (hmapped'.mem_iff shown).mp hshown
      have hmem := (hkeys' tag).mp (Option.isSome_of_eq_some htag)
      rw [htabs] at hmem
      cases hmem
    simp only [tabBarViewTabDidClose, hcurrent, Option.elim_none, hempty, List.length_nil, if_true]
    exact invariant_openLinkInNewTab (v := { v with
      pageManager := v.pageManager.removePage tab.tag
      webViewContainer := v.webViewContainer.closeWebView tab.tag }) hordered hmapped' hkeys'

theorem invariant_closeTab (h : v.Invariant) {tab : Tab} (hmem : tab ∈ v.tabBar.tabs) :
    (v.closeTab tab).Invariant := by
  obtain ⟨hbar, hsame, hleft⟩ := leaveTab_spec h hmem
  have htabs : (v.leaveTab tab).tabBar.tabs = v.tabBar.tabs := by rw [hbar]
  have hordered := TabBar.ordered_remove h.ordered hmem
  have hfilter := List.map_filter_ne h.ordered.nodup hmem
  simp only [closeTab]
  apply invariant_tabBarViewTabDidClose
  · rw [hbar]
    exact ⟨hordered.nodup, hordered.tabViews, hordered.lt_max⟩
  · exact hsame.mapped h.mapped
  · intro tag
    simp only [hsame.pageByTag, htabs, hfilter, List.mem_filter, decide_eq_true_eq, h.keys]
    by_cases heq : tag = tab.tag
    · rw [heq]
      exact ⟨fun _ => Or.inr rfl, fun _ => List.mem_map_of_mem hmem⟩
    · exact ⟨fun hin => Or.inl ⟨hin, heq⟩, fun hin => (hin.resolve_right heq).1⟩
  · simp only [htabs, hfilter, List.mem_filter, decide_eq_true_eq]
    exact fun hin => hin.2 rfl
  · rcases hleft with ⟨other, hother, hne, hcurrent, hshows⟩ | ⟨hone, hcurrent⟩
    · refine Or.inl ⟨other, ?_, hcurrent, hshows⟩
      exact List.mem_filter.mpr ⟨hother, decide_eq_true hne⟩
    · refine Or.inr ⟨?_, hcurrent⟩
      simp only [hone, List.filter_singleton, ne_eq, not_true_eq_false, decide_false]
      rfl

end ViewController

namespace TabBar

/-- A tab that is dragged takes its view along. -/
theorem drag_spec (h : b.Ordered) {tabView : TabView} (hmem : tabView ∈ b.tabViews)
    (position : Int) : (b.drag tabView position).Ordered ∧
      (b.drag tabView position).currentTab = b.currentTab ∧
      (b.drag tabView position).tabs.Perm b.tabs := by
  simp only [drag]
  cases htab : b.tabByTag tabView.tag with
  | none => exact ⟨h, rfl, .refl _⟩
  | some tab =>
    have hin : tab ∈ b.tabs := List.mem_of_find?_eq_some htab
    have htag : tab.tag = tabView.tag := by simpa using List.find?_some htab
    dsimp only
    split
    · have hindex : (min (max position 0) ((b.tabs.length : Int) - 1)).toNat ≤
          b.tabs.length - 1 := by omega
      generalize (min (max position 0) ((b.tabs.length : Int) - 1)).toNat = index at hindex
      have hnodup := h.nodup
      rw [← h.tabViews] at hnodup
      have hperm : ((b.tabs.filter (· ≠ tab)).insertIdx index tab).Perm b.tabs := by
        have herase := (h.nodup.of_map Tab.tag).erase_eq_filter tab
        rw [← List.length_erase_of_mem hin] at hindex
        have hfilter : b.tabs.filter (· ≠ tab) = b.tabs.erase tab := by
          rw [herase]
          apply List.filter_congr
          intro other _
          simp only [bne, beq_eq_decide, ne_eq, decide_not]
        rw [hfilter]
        exact (List.perm_insertIdx tab _ hindex).trans (List.perm_cons_erase hin).symm
      have htags := hperm.map Tab.tag
      refine ⟨⟨?_, ?_, ?_⟩, rfl, hperm⟩
      · exact htags.nodup_iff.mpr h.nodup
      · simp only [List.map_insertIdx]
        rw [List.map_filter_ne hnodup hmem, List.map_filter_ne h.nodup hin, h.tabViews, htag]
      · exact fun tag hmem => h.lt_max tag (htags.mem_iff.mp hmem)
    · exact ⟨h, rfl, .refl _⟩

end TabBar

namespace ViewController

theorem invariant_drag (h : v.Invariant) {tabView : TabView} (hmem : tabView ∈ v.tabBar.tabViews)
    (position : Int) : ({ v with tabBar := v.tabBar.drag tabView position }).Invariant := by
  obtain ⟨hordered, hcurrent, hperm⟩ := TabBar.drag_spec h.ordered hmem position
  obtain ⟨tab, htab, htabCurrent, hshows⟩ := h.current
  refine ⟨hordered, h.mapped, ?_, tab, hperm.mem_iff.mpr htab, hcurrent.trans htabCurrent, hshows⟩
  intro tag
  exact (h.keys tag).trans (hperm.map Tab.tag).mem_iff.symm

/-- Only background web views are released. -/
theorem invariant_didReceiveMemoryWarning (h : v.Invariant) :
    (v.step .didReceiveMemoryWarning).Invariant :=
  ⟨h.ordered, h.mapped, h.keys, h.current⟩

theorem invariant_didFinishLoad (h : v.Invariant) (tag : Nat) (title url : Option Text) :
    (v.step (.didFinishLoad tag title url)).Invariant := by
  simp only [step]
  cases hpage : v.pageManager.pageByTag tag with
  | none => exact h
  | some page =>
    rw [Option.elim_some]
    have hmapped := h.mapped
    refine ⟨h.ordered, ⟨hmapped.nodup, hmapped.lt_next, hmapped.mem_iff, hmapped.inj⟩, h.keys, ?_⟩
    obtain ⟨tab, htab, hcurrent, hview, shown, hshown, hall⟩ := h.current
    refine ⟨tab, htab, hcurrent, hview, shown, hshown, ?_⟩
    intro other hother
    rw [PageManager.modify_object]
    split
    · rename_i heq
      rw [heq] at hother
      rw [heq]
      exact hall page hother
    · exact hall other hother

/-- One operation, with all that it sets off. -/
theorem invariant_step (h : v.Invariant) (e : Browsing) : (v.step e).Invariant := by
  cases e with
  | openLink url => exact invariant_openLinkInNewTab h.ordered h.mapped h.keys
  | select tag =>
    simp only [step]
    cases hview : v.tabBar.tabViewByTag tag with
    | none => exact h
    | some tabView =>
      obtain ⟨tab, htab, hmem⟩ :=
        TabBar.tab_of_tabView h.ordered (List.mem_of_find?_eq_some hview)
      rw [Option.elim_some, htab]
      exact invariant_setCurrentTab h hmem
  | close tag =>
    simp only [step]
    cases v.tabBar.tabViewByTag tag with
    | none => exact h
    | some tabView =>
      rw [Option.elim_some]
      cases htab : v.tabBar.tabByTag tabView.tag with
      | none => exact h
      | some tab => exact invariant_closeTab h (List.mem_of_find?_eq_some htab)
  | drag tag position =>
    simp only [step]
    cases hview : v.tabBar.tabViewByTag tag with
    | none => exact h
    | some tabView => exact invariant_drag h (List.mem_of_find?_eq_some hview) position
  | didReceiveMemoryWarning => exact invariant_didReceiveMemoryWarning h
  | didFinishLoad tag title url => exact invariant_didFinishLoad h tag title url

end ViewController

end Shadowsocks
