import HoloscanLowering.Except
import HoloscanLowering.Digraph
import HoloscanLowering.Worklist
import HoloscanLowering.Operator
import HoloscanLowering.AddFlow
import HoloscanLowering.InitializeOperator
import HoloscanLowering.InitializeFragment
import HoloscanLowering.Lifecycle
import HoloscanLowering.Codec
import HoloscanLowering.Distributed
import HoloscanLowering.ExtensionManager
import HoloscanLowering.Holoinfer
import HoloscanLowering.Delivery
import HoloscanLowering.ExactDelivery
import HoloscanLowering.InferValidity
import HoloscanLowering.VirtualOperators
import HoloscanLowering.ExtensionRegistry
import HoloscanLowering.NetworkContext
import HoloscanLowering.TensorDeleter
import HoloscanLowering.DlpackImport
