import Mathlib.Data.List.Nodup
import Shadowsocks.Settings.Foundation

/-!
The browser: SWBTabBarView.m, SWBPageManager.m, SWBWebViewContainer.m, and SWBViewController.m,
which is the delegate of the tab bar and of the container. A tab is given its tag when it is made,
and no tag is given twice. The tag is an `NSInteger`, and it is written with `%d` where it is a
key: below 2^31 both are the number.
-/
namespace Shadowsocks

structure Tab where
  tag : Nat
  deriving DecidableEq

structure TabView where
  tag : Nat
  deriving DecidableEq

structure TabBar where
  tabs : List Tab
  tabViews : List TabView
  currentTab : Option Tab
  currentMaxTag : Nat

/-- `none` stands for nil. -/
structure Page where
  title : Option Text
  url : Option Text
  selected : Option Bool

/-- Pages are objects: `pages` and `tagToPageMapping` refer to them by name. -/
structure PageManager where
  object : Nat → Page
  /-- The name of the next page. -/
  next : Nat
  pages : List Nat
  tagToPageMapping : Nat → Option Nat

/-- `id` tells two web views with the same tag apart. -/
structure WebView where
  id : Nat
  tag : Nat
  deriving DecidableEq

structure WebViewContainer where
  /-- The oldest one comes first. -/
  cachedWebViews : List WebView
  currentWebView : Option WebView
  /-- The `id` of the next web view. -/
  next : Nat

structure ViewController where
  tabBar : TabBar
  pageManager : PageManager
  webViewContainer : WebViewContainer
  currentTabTag : Nat

/-- What is written of a page. -/
structure SavedPage where
  title : Text
  url : Text
  selected : Bool

namespace TabBar

variable (b : TabBar)

def tabViewByTag (tag : Nat) : Option TabView := b.tabViews.find? (·.tag = tag)

def tabByTag (tag : Nat) : Option Tab := b.tabs.find? (·.tag = tag)

/-- `layoutTabsWithAction:` makes the view of a new tab. -/
def newTab : TabBar × Tab :=
  let tab : Tab := ⟨b.currentMaxTag⟩
  ({ b with
    tabs := b.tabs ++ [tab]
    tabViews := b.tabViews ++ [⟨tab.tag⟩]
    currentMaxTag := b.currentMaxTag + 1 }, tab)

/-- The tab of the view is dragged to where the tab with the number `position` is. -/
def drag (tabView : TabView) (position : Int) : TabBar :=
  match b.tabByTag tabView.tag with
  | none => b
  | some tab =>
    let newIndex := (min (max position 0) (b.tabs.length - 1)).toNat
    if b.tabs.idxOf tab ≠ newIndex then
      { b with
        tabs := (b.tabs.filter (· ≠ tab)).insertIdx newIndex tab
        tabViews := (b.tabViews.filter (· ≠ tabView)).insertIdx newIndex tabView }
    else b

end TabBar

namespace PageManager

variable (m : PageManager)

def modify (page : Nat) (f : Page → Page) : PageManager :=
  { m with object := Function.update m.object page (f (m.object page)) }

def addPageWithTag (tag : Nat) : PageManager × Nat :=
  ({ object := Function.update m.object m.next ⟨none, none, none⟩
     next := m.next + 1
     pages := m.pages ++ [m.next]
     tagToPageMapping := Function.update m.tagToPageMapping tag (some m.next) }, m.next)

def pageByTag (tag : Nat) : Option Nat := m.tagToPageMapping tag

def removePage (tag : Nat) : PageManager :=
  { m with
    pages := m.pages.filter (some · ≠ m.pageByTag tag)
    tagToPageMapping := Function.update m.tagToPageMapping tag none }

def initMappingAndTabsByPages : PageManager :=
  { m with tagToPageMapping := (m.pages[·]?) }

/-- The first half of `syncPageManagerSelectionStatusWithSelectedTag:`. -/
def deselect : PageManager :=
  { m with
    object := fun page =>
      if page ∈ m.pages then { m.object page with selected := some false } else m.object page }

def select (tag : Nat) : PageManager :=
  (m.pageByTag tag).elim m.deselect fun page =>
    m.deselect.modify page fun page => { page with selected := some true }

/-- `[[[pages objectAtIndex:i] selected] boolValue]` -/
def isSelectedAt (i : Nat) : Bool :=
  m.pages[i]?.any fun page => (m.object page).selected.getD false

/-- `none` when a page has nil in it: a dictionary does not take nil, and raises. -/
def save : Option (List SavedPage) :=
  m.pages.mapM fun page => do
    let title ← (m.object page).title
    let url ← (m.object page).url
    let selected ← (m.object page).selected
    pure ⟨title, url, selected⟩

/-- What `load` makes of the pages that it has read. -/
def load (pages : List Page) : PageManager where
  object := fun page => pages[page]?.getD ⟨none, none, none⟩
  next := pages.length
  pages := List.range pages.length
  tagToPageMapping := fun _ => none

end PageManager

/-- The file as `load` reads it. -/
def Page.read (page : SavedPage) : Page := ⟨some page.title, some page.url, some page.selected⟩

namespace WebViewContainer

variable (c : WebViewContainer)

def kMaxCachedWebViews : Nat := 10

def kMinCachedWebViews : Nat := 2

def removeAWebView (webView : WebView) : WebViewContainer :=
  { c with cachedWebViews := c.cachedWebViews.filter (· ≠ webView) }

/-- The oldest web view makes room for the new one. -/
def getANewWebView (tag : Nat) : WebViewContainer × WebView :=
  let c :=
    if c.cachedWebViews.length ≥ kMaxCachedWebViews then
      c.cachedWebViews.head?.elim c c.removeAWebView
    else c
  let webView : WebView := ⟨c.next, tag⟩
  ({ c with cachedWebViews := c.cachedWebViews ++ [webView], next := c.next + 1 }, webView)

/-- A web view that has been given up is made anew, and loads its page. -/
def webViewByTag (tag : Nat) : WebViewContainer × WebView :=
  match c.cachedWebViews.find? (·.tag = tag) with
  | some webView => (c, webView)
  | none => c.getANewWebView tag

def switchToWebViewWithWebView (webView : WebView) : WebViewContainer :=
  { c with
    cachedWebViews := c.cachedWebViews.filter (· ≠ webView) ++ [webView]
    currentWebView := some webView }

/-- The tag of nil is 0. -/
def closeWebView (tag : Nat) : WebViewContainer :=
  let c :=
    if tag = c.currentWebView.elim 0 WebView.tag then { c with currentWebView := none } else c
  let (c, webView) := c.webViewByTag tag
  c.removeAWebView webView

def releaseBackgroundWebViews : WebViewContainer :=
  { c with cachedWebViews :=
      c.cachedWebViews.drop (c.cachedWebViews.length - kMinCachedWebViews) }

end WebViewContainer

namespace ViewController

variable (v : ViewController)

/-- `newWebView:` of the container, which tells its delegate of the new web view. -/
def newWebView (tag : Nat) : ViewController :=
  let (c, webView) := v.webViewContainer.getANewWebView tag
  { v with
    webViewContainer := c.switchToWebViewWithWebView webView
    pageManager := v.pageManager.select webView.tag }

/-- `switchToWebView:` of the container, which tells its delegate when the web view changes. -/
def switchToWebView (tag : Nat) : ViewController :=
  let (c, webView) := v.webViewContainer.webViewByTag tag
  if c.currentWebView = some webView then { v with webViewContainer := c }
  else
    { v with
      webViewContainer := c.switchToWebViewWithWebView webView
      pageManager := v.pageManager.select webView.tag }

/-- `setCurrentTab:` of the tab bar, which tells its delegate unless no tab is left. -/
def setCurrentTab (newCurrentTab : Option Tab) : ViewController :=
  if newCurrentTab = v.tabBar.currentTab then v
  else
    let v := { v with tabBar := { v.tabBar with currentTab := newCurrentTab } }
    newCurrentTab.elim v fun tab => v.switchToWebView tab.tag

def openLinkInNewTab (url : Text) : ViewController :=
  let (tabBar, newTab) := v.tabBar.newTab
  let (pageManager, page) := v.pageManager.addPageWithTag newTab.tag
  let pageManager :=
    pageManager.modify page fun page => { page with url := some url, title := some [] }
  let v := { v with tabBar := tabBar, pageManager := pageManager }
  (v.newWebView newTab.tag).setCurrentTab (some newTab)

def addNewTab : ViewController :=
  let (tabBar, newTab) := v.tabBar.newTab
  let v := { v with tabBar := tabBar }
  (v.newWebView newTab.tag).setCurrentTab (some newTab)

def tabBarViewTabDidClose (tab : Tab) : ViewController :=
  let v :=
    { v with
      pageManager := v.pageManager.removePage tab.tag
      webViewContainer := v.webViewContainer.closeWebView tab.tag }
  let v := v.tabBar.currentTab.elim v fun tab => v.switchToWebView tab.tag
  if v.pageManager.pages.length = 0 then v.openLinkInNewTab "http://www.twitter.com/".toList else v

/-- The first part of `closeTab:`, where a neighbour of the current tab becomes current. -/
def leaveTab (tab : Tab) : ViewController :=
  let tabs := v.tabBar.tabs
  if v.tabBar.currentTab = some tab then
    let index := tabs.idxOf tab
    if tabs.length ≠ 1 then
      if index = tabs.length - 1 then
        if index ≠ 0 then v.setCurrentTab tabs[index - 1]? else v
      else v.setCurrentTab tabs[index + 1]?
    else v.setCurrentTab none
  else v

def closeTab (tab : Tab) : ViewController :=
  let tabView := v.tabBar.tabViewByTag tab.tag
  let v := v.leaveTab tab
  let tabBar :=
    { v.tabBar with
      tabs := v.tabBar.tabs.filter (· ≠ tab)
      tabViews := v.tabBar.tabViews.filter (some · ≠ tabView) }
  ({ v with tabBar := tabBar }).tabBarViewTabDidClose tab

/-- Of several pages that are selected the last one is made current. -/
def initPagesAndTabs : ViewController :=
  let m := v.pageManager.initMappingAndTabsByPages
  let count := m.pages.length
  let v : ViewController :=
    { v with
      pageManager := m
      currentTabTag := (List.range count).foldl
        (fun tag i => if m.isSelectedAt i then i else tag) v.currentTabTag }
  let v : ViewController := (List.range count).foldl (fun v _ => v.addNewTab) v
  if v.pageManager.pages.length = 0 then v.openLinkInNewTab "http://www.google.com/".toList
  else v.setCurrentTab (v.tabBar.tabByTag v.currentTabTag)

/-- `viewDidLoad`, with the pages that have been loaded. -/
def viewDidLoad (pages : List Page) : ViewController :=
  initPagesAndTabs
    { tabBar := ⟨[], [], none, 0⟩
      pageManager := .load pages
      webViewContainer := ⟨[], none, 0⟩
      currentTabTag := 0 }

end ViewController

/-- What the user or the system does. The tags are those of tab views and web views. -/
inductive Browsing
  | openLink (url : Text)
  | select (tag : Nat)
  | close (tag : Nat)
  | drag (tag : Nat) (position : Int)
  | didReceiveMemoryWarning
  /-- A web view has a title and an address for its page. -/
  | didFinishLoad (tag : Nat) (title url : Option Text)

namespace ViewController

variable (v : ViewController)

/-- What is done to a tab view is done to one that there is. -/
def step : Browsing → ViewController
  | .openLink url => v.openLinkInNewTab url
  | .select tag =>
    (v.tabBar.tabViewByTag tag).elim v fun tabView =>
      v.setCurrentTab (v.tabBar.tabByTag tabView.tag)
  | .close tag =>
    (v.tabBar.tabViewByTag tag).elim v fun tabView =>
      (v.tabBar.tabByTag tabView.tag).elim v v.closeTab
  | .drag tag position =>
    (v.tabBar.tabViewByTag tag).elim v fun tabView =>
      { v with tabBar := v.tabBar.drag tabView position }
  | .didReceiveMemoryWarning =>
    { v with webViewContainer := v.webViewContainer.releaseBackgroundWebViews }
  | .didFinishLoad tag title url =>
    (v.pageManager.pageByTag tag).elim v fun page =>
      { v with pageManager :=
          v.pageManager.modify page fun page => { page with title := title, url := url } }

end ViewController

end Shadowsocks
