import Shadowsocks.Cipher.Contexts
import Shadowsocks.Cipher.Sorting
import Shadowsocks.Local.Delivery
import Shadowsocks.Local.Bounds
import Shadowsocks.Local.Refused
import Shadowsocks.Local.Program
import Shadowsocks.Local.Watching
import Shadowsocks.Browser.Showing
import Shadowsocks.Browser.Indicator
import Shadowsocks.Browser.Rows
import Shadowsocks.Settings.Sharing
import Shadowsocks.Settings.Assertions
import Shadowsocks.Settings.Choices
import Shadowsocks.Settings.Saving
import Shadowsocks.Settings.Upgrade
import Shadowsocks.Settings.Editing
import Shadowsocks.Settings.Grammar
import Shadowsocks.Pac.Domains
import Shadowsocks.Pac.Malformed
import Shadowsocks.Pac.Update
import Shadowsocks.Pac.Choosing
import Shadowsocks.Pac.Serving
import Shadowsocks.Pac.Browsing
import Shadowsocks.System.Modes
