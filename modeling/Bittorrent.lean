import Bittorrent.Bencode.Local
import Bittorrent.Demo.Announce
import Bittorrent.Demo.Message
import Bittorrent.Dht.Announced
import Bittorrent.Dht.Authorised
import Bittorrent.Dht.Distinct
import Bittorrent.Dht.Endgame
import Bittorrent.Dht.Finders
import Bittorrent.Dht.Order
import Bittorrent.Dht.Shortlist
import Bittorrent.Disk.Accounting
import Bittorrent.Disk.Native
import Bittorrent.Disk.Uncrashed
import Bittorrent.Handshake.Filter
import Bittorrent.Handshake.Framed
import Bittorrent.Handshake.Sending
import Bittorrent.Metainfo.Settings
import Bittorrent.Metainfo.WellFormed
import Bittorrent.Peer.Exchange
import Bittorrent.Peer.Hostile
import Bittorrent.Peer.Pieces
import Bittorrent.Peer.Reader
import Bittorrent.Select.Advertised
import Bittorrent.Select.Queues
import Bittorrent.Select.Stored
import Bittorrent.Tracker.Limiter
import Bittorrent.Tracker.Retransmit
import Bittorrent.Util.Delivery
import Bittorrent.Utp.Ack
import Bittorrent.Utp.Final
import Bittorrent.Utp.Numbering
import Bittorrent.Utp.Reply
import Bittorrent.Utp.Timeout
