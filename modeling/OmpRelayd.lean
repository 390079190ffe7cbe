import OmpRelayd.Blob.Residue
import OmpRelayd.Relay.Effects
import OmpRelayd.Relay.Receipts
import OmpRelayd.Relay.Superseded
import OmpRelayd.Blob.Authority
import OmpRelayd.Relay.Answered
import OmpRelayd.Client.Transfer
import OmpRelayd.Client.Replies
import OmpRelayd.Client.Stopping
import OmpRelayd.Relay.Diagnostics
import OmpRelayd.Extension.OneClient
import OmpRelayd.Blob.Paths
import OmpRelayd.Extension.Address
import OmpRelayd.Extension.Provenance
import OmpRelayd.Extension.Debt
import OmpRelayd.Shutdown
import OmpRelayd.Network.Messages
import OmpRelayd.Http.Transfers
